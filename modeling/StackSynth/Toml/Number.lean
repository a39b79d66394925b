import StackSynth.Bytes
import StackSynth.Toml

/-!
# Number — integers, doubles and date-times from their spelling

A bare value is a word of letters, digits and a few signs.  `Toml.ofWord?` reads a word as a
boolean, a date-time, an integer of 64 bits or a double.

* Single underscores may stand between digits, never at either end.
* A whole part has no zero in front of other digits.
* Hexadecimal, octal and binary integers have a mark in front and no sign.
* A double is rounded once.  One that is too large is refused if it is positive and is minus
  infinity if it is negative.
-/

namespace StackSynth
namespace Toml

/-! ## Digits -/

/-- Digits without the underscores between them. -/
def ungrouped? (isDigit : Char → Bool) : List Char → Option (List Char)
  | [] => none
  | [c] => if isDigit c then some [c] else none
  | c :: '_' :: d :: rest =>
      if isDigit c && isDigit d then (ungrouped? isDigit (d :: rest)).map (c :: ·) else none
  | c :: rest => if isDigit c then (ungrouped? isDigit rest).map (c :: ·) else none

def valueInBase (base : Nat) (digits : List Char) : Nat :=
  digits.foldl (fun n d => n * base + (Bytes.hexValue? d).getD 0) 0

/-- Decimal digits of a whole part. -/
def whole? (cs : List Char) : Option (List Char) :=
  match cs with
  | '0' :: _ :: _ => none
  | _ => ungrouped? Char.isDigit cs

/-- The sign in front, and what it stands before. -/
def signed (cs : List Char) : Bool × List Char :=
  match cs with
  | '-' :: rest => (true, rest)
  | '+' :: rest => (false, rest)
  | _ => (false, cs)

/-! ## Integers -/

def inWord (n : Int) : Bool :=
  -0x8000000000000000 ≤ n && n < 0x8000000000000000

def isHexDigit (c : Char) : Bool :=
  (Bytes.hexValue? c).isSome

def isOctalDigit (c : Char) : Bool :=
  '0' ≤ c && c ≤ '7'

def isBinaryDigit (c : Char) : Bool :=
  c == '0' || c == '1'

def magnitude? (cs : List Char) : Option Nat :=
  match cs with
  | '0' :: 'x' :: rest => (ungrouped? isHexDigit rest).map (valueInBase 16)
  | '0' :: 'o' :: rest => (ungrouped? isOctalDigit rest).map (valueInBase 8)
  | '0' :: 'b' :: rest => (ungrouped? isBinaryDigit rest).map (valueInBase 2)
  | _ => (whole? cs).map (valueInBase 10)

def integer? (cs : List Char) : Option Int := do
  let n ←
    match cs with
    | '-' :: rest => (whole? rest).map fun ds => - (valueInBase 10 ds : Int)
    | '+' :: rest => (whole? rest).map fun ds => (valueInBase 10 ds : Int)
    | _ => (magnitude? cs).map fun n => (n : Int)
  if inWord n then return n else none

/-! ## Doubles -/

/-- An exponent after its letter. -/
def exponent? (cs : List Char) : Option Int := do
  let (negative, digits) := signed cs
  let digits ← ungrouped? Char.isDigit digits
  let n : Int := valueInBase 10 digits
  return if negative then -n else n

def isExponentMark (c : Char) : Bool :=
  c == 'e' || c == 'E'

/-- A double without its sign: digits before the point, after it, and the exponent; at least one
of point and exponent is there. -/
def parts? (cs : List Char) : Option (List Char × List Char × Int) := do
  let mantissa := cs.takeWhile fun c => !isExponentMark c
  let power := (cs.dropWhile fun c => !isExponentMark c).drop 1
  let hasPower := mantissa.length < cs.length
  let whole := mantissa.takeWhile (· != '.')
  let hasPoint := whole.length < mantissa.length
  let whole ← whole? whole
  let fraction ← if hasPoint then ungrouped? Char.isDigit ((mantissa.dropWhile (· != '.')).drop 1)
    else some []
  let exponent ← if hasPower then exponent? power else some 0
  if hasPoint || hasPower then return (whole, fraction, exponent) else none

def double? (cs : List Char) : Option Binary64 := do
  let (negative, rest) := signed cs
  if rest = ['i', 'n', 'f'] then return .infinite negative
  if rest = ['n', 'a', 'n'] then return .nan
  let (whole, fraction, exponent) ← parts? rest
  let value := Binary64.ofDecimal negative (valueInBase 10 (whole ++ fraction))
    (exponent - fraction.length)
  if value = .infinite false then none else return value

/-! ## Words -/

def ofWord? (word : List Char) : Option Toml :=
  if word = ['t', 'r', 'u', 'e'] then some (.bool true)
  else if word = ['f', 'a', 'l', 's', 'e'] then some (.bool false)
  else
    match DateTime.ofChars? word with
    | some dt => some (.dateTime dt)
    | none =>
        match double? word with
        | some x => some (.double x)
        | none => (integer? word).map .integer

end Toml
end StackSynth
