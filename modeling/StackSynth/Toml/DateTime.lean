/-!
# DateTime — dates and times of day

A date-time has a date, a time of day and an offset from universal time, each of which may be
missing in the ways RFC 3339 and its local forms allow.

* `DateTime.ofChars?` reads one, and refuses days that a month does not have, hours past 23,
  minutes past 59 and seconds past 60;
* `DateTime.text` writes it in one normal form: a `T` between date and time, no zeros at the end
  of a fraction of at most nine digits, and `Z` or a signed offset.
-/

namespace StackSynth

structure Date where
  year : Nat
  month : Nat
  day : Nat
  deriving DecidableEq

structure TimeOfDay where
  hour : Nat
  minute : Nat
  second : Nat
  nanosecond : Nat
  deriving DecidableEq

inductive Offset where
  | universal
  | minutes (value : Int)
  deriving DecidableEq

structure DateTime where
  date : Option Date
  time : Option TimeOfDay
  offset : Option Offset
  deriving DecidableEq

namespace DateTime

/-! ## Calendar -/

def isLeapYear (year : Nat) : Bool :=
  year % 4 == 0 && (year % 100 != 0 || year % 400 == 0)

def daysInMonth (year month : Nat) : Nat :=
  match month with
  | 2 => if isLeapYear year then 29 else 28
  | 4 | 6 | 9 | 11 => 30
  | _ => 31

def Date.isValid (d : Date) : Bool :=
  1 ≤ d.month && d.month ≤ 12 && 1 ≤ d.day && d.day ≤ daysInMonth d.year d.month

/-! ## Reading -/

/-- The number that `count` decimal digits at the front spell, and what follows them. -/
def number? : (count : Nat) → List Char → Option (Nat × List Char)
  | 0, cs => some (0, cs)
  | count + 1, c :: cs =>
      if c.isDigit then
        (number? count cs).map fun p => ((c.toNat - 48) * Nat.pow 10 count + p.1, p.2)
      else none
  | _ + 1, [] => none

def expect? (c : Char) : List Char → Option (List Char)
  | d :: cs => if d = c then some cs else none
  | [] => none

def date? (cs : List Char) : Option (Date × List Char) := do
  let (year, cs) ← number? 4 cs
  let cs ← expect? '-' cs
  let (month, cs) ← number? 2 cs
  let cs ← expect? '-' cs
  let (day, cs) ← number? 2 cs
  let date : Date := ⟨year, month, day⟩
  if Date.isValid date then return (date, cs) else none

/-- A fraction of a second in nanoseconds; digits past the ninth are dropped. -/
def fraction? : List Char → Option (Nat × List Char)
  | '.' :: cs =>
      let digits := cs.takeWhile Char.isDigit
      if digits.isEmpty then none
      else
        let nine := (digits ++ List.replicate 9 '0').take 9
        (number? 9 nine).map fun p => (p.1, cs.dropWhile Char.isDigit)
  | cs => some (0, cs)

def time? (cs : List Char) : Option (TimeOfDay × List Char) := do
  let (hour, cs) ← number? 2 cs
  let cs ← expect? ':' cs
  let (minute, cs) ← number? 2 cs
  let cs ← expect? ':' cs
  let (second, cs) ← number? 2 cs
  let (nanosecond, cs) ← fraction? cs
  if hour ≤ 23 ∧ minute ≤ 59 ∧ second ≤ 60 then
    return (⟨hour, minute, second, nanosecond⟩, cs)
  else none

def offset? : List Char → Option (Option Offset × List Char)
  | 'Z' :: cs => some (some .universal, cs)
  | 'z' :: cs => some (some .universal, cs)
  | c :: cs =>
      if c = '+' ∨ c = '-' then do
        let (hour, cs) ← number? 2 cs
        let cs ← expect? ':' cs
        let (minute, cs) ← number? 2 cs
        let total : Int := hour * 60 + minute
        if hour ≤ 23 ∧ minute ≤ 59 then
          return (some (.minutes (if c = '-' then -total else total)), cs)
        else none
      else some (none, c :: cs)
  | [] => some (none, [])

/-- The characters that may stand between date and time. -/
def isDelimiter (c : Char) : Bool :=
  c == 'T' || c == 't' || c == ' '

/-- A date-time that takes up all of the characters. -/
def ofChars? (cs : List Char) : Option DateTime :=
  match date? cs with
  | some (date, []) => some ⟨some date, none, none⟩
  | some (date, c :: rest) =>
      if isDelimiter c then do
        let (time, rest) ← time? rest
        let (offset, rest) ← offset? rest
        if rest.isEmpty then return ⟨some date, some time, offset⟩ else none
      else none
  | none => do
      let (time, rest) ← time? cs
      if rest.isEmpty then return ⟨none, some time, none⟩ else none

/-! ## Writing -/

/-- At least `width` decimal digits. -/
def padded (width n : Nat) : List Char :=
  let digits := Nat.toDigits 10 n
  List.replicate (width - digits.length) '0' ++ digits

def dateChars (d : Date) : List Char :=
  padded 4 d.year ++ '-' :: (padded 2 d.month ++ '-' :: padded 2 d.day)

def fractionChars (nanosecond : Nat) : List Char :=
  if nanosecond = 0 then []
  else '.' :: ((padded 9 nanosecond).reverse.dropWhile (· == '0')).reverse

def timeChars (t : TimeOfDay) : List Char :=
  padded 2 t.hour ++ ':' :: (padded 2 t.minute ++ ':' :: padded 2 t.second)
    ++ fractionChars t.nanosecond

def offsetChars : Offset → List Char
  | .universal => ['Z']
  | .minutes value =>
      let n := value.natAbs
      (if value < 0 then '-' else '+') :: (padded 2 (n / 60) ++ ':' :: padded 2 (n % 60))

def text (dt : DateTime) : String :=
  let date := (dt.date.map dateChars).getD []
  let mark := if dt.date.isSome && dt.time.isSome then ['T'] else []
  let time := (dt.time.map timeChars).getD []
  let offset := (dt.offset.map offsetChars).getD []
  String.ofList (date ++ mark ++ time ++ offset)

end DateTime
end StackSynth
