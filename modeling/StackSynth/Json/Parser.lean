import StackSynth.Bytes
import StackSynth.Json

/-!
# Parser — documents from text

`Json.read?` reads one document from text, with space around it and nothing else, and gives
nothing for text that is no document.  Members of objects are kept as written;
`Json.parse?` is the canonical form of what was read.

* Containers nest at most `Json.depthLimit` levels deep.
* An integer is exact from `-2 ^ 63` up to `2 ^ 64 - 1`.  Every other number is a double: as many
  of its digits as fit 64 bits are rounded to a double once, which is then multiplied or divided
  by a power of ten with one more rounding; a number too large for a double is refused.

A reader takes characters and gives what it read with the characters after it.
-/

namespace StackSynth
namespace Json

abbrev Reader (α : Type) := List Char → Option (α × List Char)

/-- Containers nest no deeper. -/
def depthLimit : Nat := 127

def isSpace (c : Char) : Bool :=
  c == ' ' || c == '\n' || c == '\t' || c == '\r'

def skipSpace (cs : List Char) : List Char :=
  cs.dropWhile isSpace

/-! ## Strings -/

/-- The number that four hexadecimal digits spell. -/
def hexQuad? (a b c d : Char) : Option Nat := do
  let a ← Bytes.hexValue? a
  let b ← Bytes.hexValue? b
  let c ← Bytes.hexValue? c
  let d ← Bytes.hexValue? d
  return ((a * 16 + b) * 16 + c) * 16 + d

/-- The character after a backslash, for the escapes of one letter. -/
def unescaped? : Char → Option Char
  | '"' => some '"'
  | '\\' => some '\\'
  | '/' => some '/'
  | 'b' => some '\x08'
  | 'f' => some '\x0c'
  | 'n' => some '\n'
  | 'r' => some '\r'
  | 't' => some '\t'
  | _ => none

def isHighSurrogate (n : Nat) : Bool :=
  0xD800 ≤ n && n < 0xDC00

def isLowSurrogate (n : Nat) : Bool :=
  0xDC00 ≤ n && n < 0xE000

/-- The characters up to the closing quote, with their escapes resolved.  A code unit of a
surrogate pair stands only in its pair. -/
def readStringBody : Reader (List Char)
  | [] => none
  | '"' :: rest => some ([], rest)
  | '\\' :: 'u' :: a :: b :: c :: d :: rest => do
      let n ← hexQuad? a b c d
      if isHighSurrogate n then
        match rest with
        | '\\' :: 'u' :: e :: f :: g :: h :: rest' => do
            let m ← hexQuad? e f g h
            if isLowSurrogate m then
              let (cs, after) ← readStringBody rest'
              return (Char.ofNat (0x10000 + (n - 0xD800) * 0x400 + (m - 0xDC00)) :: cs, after)
            else none
        | _ => none
      else if isLowSurrogate n then none
      else
        let (cs, after) ← readStringBody rest
        return (Char.ofNat n :: cs, after)
  | '\\' :: c :: rest => do
      let plain ← unescaped? c
      let (cs, after) ← readStringBody rest
      return (plain :: cs, after)
  | c :: rest =>
      if c == '\\' || c.toNat < 0x20 then none
      else do
        let (cs, after) ← readStringBody rest
        return (c :: cs, after)

def readString : Reader String
  | '"' :: rest => do
      let (cs, after) ← readStringBody rest
      return (String.ofList cs, after)
  | _ => none

/-! ## Numbers -/

/-- The largest number of 64 bits. -/
def maxWord : Nat := 0xFFFFFFFFFFFFFFFF

/-- The largest exponent that is looked at digit by digit. -/
def maxExponentText : Nat := 0x7FFFFFFF

def digitValue (c : Char) : Nat :=
  c.toNat - 48

def digitsValue (ds : List Char) : Nat :=
  ds.foldl (fun n d => n * 10 + digitValue d) 0

/-- Appends digits as long as the number fits 64 bits; gives the number and the digits left. -/
def takeDigits (n : Nat) : List Char → Nat × List Char
  | [] => (n, [])
  | d :: ds =>
      if maxWord < n * 10 + digitValue d then (n, d :: ds)
      else takeDigits (n * 10 + digitValue d) ds

def powerOfTen (k : Nat) : Binary64 :=
  Binary64.ofNat (Nat.pow 10 k)

/-- `x * 10 ^ e` with a rounding for each power of ten that a double can hold, or nothing if it
is too large. -/
def scaleByTen (x : Binary64) (e : Int) : Option Binary64 :=
  if e.natAbs ≤ 308 then
    if e < 0 then some (x.div (powerOfTen e.natAbs))
    else
      let y := x.mul (powerOfTen e.natAbs)
      if y.isFinite then some y else none
  else if x = .zero false then some x
  else if 0 ≤ e then none
  else scaleByTen (x.div (powerOfTen 308)) (e + 308)
termination_by e.natAbs
decreasing_by omega

/-- A number as written: sign, digits before and after the point, and the exponent. -/
structure Numeral where
  negative : Bool
  whole : List Char
  fraction : List Char
  exponent : Option (Bool × List Char)

/-- The written exponent, if a double could have it; `none` stands for an exponent beyond. -/
def Numeral.shift (n : Numeral) : Option Int :=
  match n.exponent with
  | none => some 0
  | some (negative, digits) =>
      let e := digitsValue digits
      if maxExponentText < e then none
      else some (if negative then - (e : Int) else e)

/-- The double that a numeral with a point, an exponent or too many digits stands for. -/
def Numeral.double? (n : Numeral) : Option Binary64 := do
  let (head, beyond) := takeDigits 0 n.whole
  let (significand, unread) := takeDigits head n.fraction
  let scale : Int := (beyond.length : Int) - (n.fraction.length - unread.length : Nat)
  let magnitude ←
    match n.shift, n.exponent with
    | some shift, _ => scaleByTen (Binary64.ofNat significand) (scale + shift)
    | none, some (false, _) => if significand = 0 then some (.zero false) else none
    | none, _ => some (.zero false)
  return if n.negative then magnitude.negate else magnitude

def Numeral.value? (n : Numeral) : Option Number :=
  let whole := digitsValue n.whole
  if n.fraction.isEmpty && n.exponent.isNone && whole ≤ maxWord
      && !(n.negative && (whole == 0 || 0x8000000000000000 < whole)) then
    some (.integer (if n.negative then - (whole : Int) else whole))
  else
    n.double?.map .double

/-- The digits at the front and what follows them. -/
def spanDigits (cs : List Char) : List Char × List Char :=
  (cs.takeWhile Char.isDigit, cs.dropWhile Char.isDigit)

/-- Digits of a whole part: a zero stands alone. -/
def readWhole : Reader (List Char)
  | cs =>
      match spanDigits cs with
      | ([], _) => none
      | ('0' :: _ :: _, _) => none
      | (digits, rest) => some (digits, rest)

/-- A point with at least one digit after it, or nothing. -/
def readFraction : Reader (List Char)
  | '.' :: cs =>
      match spanDigits cs with
      | ([], _) => none
      | (digits, rest) => some (digits, rest)
  | cs => some ([], cs)

/-- The sign of an exponent and what follows it. -/
def exponentSign : List Char → Bool × List Char
  | '-' :: cs => (true, cs)
  | '+' :: cs => (false, cs)
  | cs => (false, cs)

def readExponent : Reader (Option (Bool × List Char))
  | c :: cs =>
      if c == 'e' || c == 'E' then
        let (negative, cs) := exponentSign cs
        match spanDigits cs with
        | ([], _) => none
        | (digits, rest) => some (some (negative, digits), rest)
      else some (none, c :: cs)
  | [] => some (none, [])

def sign : List Char → Bool × List Char
  | '-' :: cs => (true, cs)
  | cs => (false, cs)

def readNumeral : Reader Numeral := fun cs => do
  let (negative, cs) := sign cs
  let (whole, cs) ← readWhole cs
  let (fraction, cs) ← readFraction cs
  let (exponent, cs) ← readExponent cs
  return (⟨negative, whole, fraction, exponent⟩, cs)

def readNumber : Reader Number := fun cs => do
  let (numeral, cs) ← readNumeral cs
  return (← numeral.value?, cs)

/-! ## Documents -/

/-- A word that stands for a value. -/
def readWord (word : List Char) (value : α) : Reader α := fun cs =>
  if word.isPrefixOf cs then some (value, cs.drop word.length) else none

/-- One or more items with commas between them, up to a closing mark.  An item takes at least
one character. -/
def readSeparated (item : Reader α) (closeMark : Char) (cs : List Char) :
    Option (List α × List Char) := do
  let (x, rest) ← item (skipSpace cs)
  match _h : skipSpace rest with
  | c :: more =>
      if c == closeMark then return ([x], more)
      else if c == ',' then
        if more.length < cs.length then
          let (xs, after) ← readSeparated item closeMark more
          return (x :: xs, after)
        else none
      else none
  | [] => none
termination_by cs.length

/-- A container after its opening mark. -/
def readContainer (item : Reader α) (closeMark : Char) : Reader (List α) := fun cs =>
  match skipSpace cs with
  | c :: rest =>
      if c == closeMark then some ([], rest) else readSeparated item closeMark (c :: rest)
  | [] => none

def readMember (value : Reader Json) : Reader (String × Json) := fun cs => do
  let (key, rest) ← readString cs
  match skipSpace rest with
  | ':' :: more => do
      let (v, after) ← value (skipSpace more)
      return ((key, v), after)
  | _ => none

def readScalar : Reader Json
  | '"' :: rest => (readString ('"' :: rest)).map fun p => (.string p.1, p.2)
  | 'n' :: rest => readWord ['n', 'u', 'l', 'l'] .null ('n' :: rest)
  | 't' :: rest => readWord ['t', 'r', 'u', 'e'] (.bool true) ('t' :: rest)
  | 'f' :: rest => readWord ['f', 'a', 'l', 's', 'e'] (.bool false) ('f' :: rest)
  | cs => (readNumber cs).map fun p => (.number p.1, p.2)

/-- One document, without space before it, whose containers nest at most `depth` levels. -/
def readValue : (depth : Nat) → Reader Json
  | 0 => readScalar
  | depth + 1 => fun cs =>
      match cs with
      | '[' :: rest =>
          (readContainer (readValue depth) ']' rest).map fun p => (.array p.1, p.2)
      | '{' :: rest =>
          (readContainer (readMember (readValue depth)) '}' rest).map fun p => (.object p.1, p.2)
      | cs => readScalar cs

def readDocument (cs : List Char) : Option Json := do
  let (doc, rest) ← readValue depthLimit (skipSpace cs)
  if (skipSpace rest).isEmpty then return doc else none

def read? (text : String) : Option Json :=
  readDocument text.toList

def parse? (text : String) : Option Json :=
  (read? text).map canonical

end Json
end StackSynth
