import StackSynth.Bytes
import StackSynth.Json
import StackSynth.Decimal.Shortest

/-!
# Printer — the text of a document

Two layouts of one document: `Json.compact` on a single line without spaces, and `Json.pretty`
with one item a line, two more spaces of indentation a level and a space after each colon.

* Strings are written between quotes; a quote, a backslash and the control characters below
  the space are escaped, everything else stands for itself.
* Integers are written in decimal digits.  Doubles are written with the fewest digits that read
  back, positionally from 1e-5 up to 1e16 and with an exponent elsewhere; a number that is not
  finite is written `null`.
-/

namespace StackSynth
namespace Json

/-! ## Strings -/

/-- The characters that stand for one character of a string. -/
def escaped (c : Char) : List Char :=
  match c with
  | '"' => ['\\', '"']
  | '\\' => ['\\', '\\']
  | '\n' => ['\\', 'n']
  | '\r' => ['\\', 'r']
  | '\t' => ['\\', 't']
  | '\x08' => ['\\', 'b']
  | '\x0c' => ['\\', 'f']
  | c =>
      if c.toNat < 0x20 then
        ['\\', 'u', '0', '0', Bytes.hexDigit (c.toNat / 16), Bytes.hexDigit (c.toNat % 16)]
      else [c]

def quoted (text : String) : List Char :=
  '"' :: (text.toList.flatMap escaped ++ ['"'])

/-! ## Numbers -/

def naturalText (n : Nat) : List Char :=
  Nat.toDigits 10 n

def integerText (i : Int) : List Char :=
  match i with
  | .ofNat n => naturalText n
  | .negSucc n => '-' :: naturalText (n + 1)

def zeros (count : Nat) : List Char :=
  List.replicate count '0'

/-- The digits with the point after the first `before` of them, which may be none or more than
there are; at least one digit stands on each side. -/
def positional (digits : List Char) (before : Int) : List Char :=
  if before ≤ 0 then
    '0' :: '.' :: (zeros before.natAbs ++ digits)
  else
    let whole := digits.take before.toNat
    let fraction := digits.drop before.toNat
    whole ++ zeros (before.toNat - digits.length) ++
      '.' :: (if fraction.isEmpty then ['0'] else fraction)

/-- One digit before the point, and the exponent with its sign. -/
def scientific (digits : List Char) (exponent : Int) : List Char :=
  let fraction := digits.drop 1
  let sign := if exponent < 0 then '-' else '+'
  digits.take 1 ++ (if fraction.isEmpty then [] else '.' :: fraction)
    ++ 'e' :: sign :: naturalText exponent.natAbs

/-- Positional notation begins at 1e-5 and ends below 1e16. -/
def isPositional (exponent : Int) : Bool :=
  -5 ≤ exponent && exponent < 16

def trimZeros (digits : List Char) : List Char :=
  (digits.reverse.dropWhile (· == '0')).reverse

def doubleText : Binary64 → List Char
  | .finite negative significand exponent =>
      let magnitude :=
        if significand = 0 then ['0', '.', '0']
        else
          let d := Shortest.shortest significand exponent
          let all := naturalText d.digits
          let first : Int := d.scale + all.length - 1
          let digits := trimZeros all
          if isPositional first then positional digits (first + 1) else scientific digits first
      if negative then '-' :: magnitude else magnitude
  | _ => ['n', 'u', 'l', 'l']

def numberText : Number → List Char
  | .integer value => integerText value
  | .double value => doubleText value

/-! ## Layout -/

def nullText : List Char := ['n', 'u', 'l', 'l']

def boolText : Bool → List Char
  | true => ['t', 'r', 'u', 'e']
  | false => ['f', 'a', 'l', 's', 'e']

/-- The parts with `separator` between neighbours. -/
def separated (separator : List Char) : List (List Char) → List Char
  | [] => []
  | [part] => part
  | part :: rest => part ++ separator ++ separated separator rest

mutual

def compactChars : Json → List Char
  | .null => nullText
  | .bool value => boolText value
  | .number value => numberText value
  | .string value => quoted value
  | .array items => '[' :: (separated [','] (compactItems items) ++ [']'])
  | .object members => '{' :: (separated [','] (compactMembers members) ++ ['}'])

def compactItems : List Json → List (List Char)
  | [] => []
  | item :: rest => compactChars item :: compactItems rest

def compactMembers : List (String × Json) → List (List Char)
  | [] => []
  | (key, value) :: rest => (quoted key ++ ':' :: compactChars value) :: compactMembers rest

end

/-- A new line at a level of indentation. -/
def newline (level : Nat) : List Char :=
  '\n' :: List.replicate (2 * level) ' '

/-- A container around its parts, one part a line; empty containers take no line. -/
def container (openMark closeMark : Char) (level : Nat) (parts : List (List Char)) : List Char :=
  if parts.isEmpty then [openMark, closeMark]
  else
    openMark :: (newline (level + 1) ++ separated (',' :: newline (level + 1)) parts
      ++ newline level ++ [closeMark])

mutual

def prettyChars (level : Nat) : Json → List Char
  | .null => nullText
  | .bool value => boolText value
  | .number value => numberText value
  | .string value => quoted value
  | .array items => container '[' ']' level (prettyItems (level + 1) items)
  | .object members => container '{' '}' level (prettyMembers (level + 1) members)

def prettyItems (level : Nat) : List Json → List (List Char)
  | [] => []
  | item :: rest => prettyChars level item :: prettyItems level rest

def prettyMembers (level : Nat) : List (String × Json) → List (List Char)
  | [] => []
  | (key, value) :: rest =>
      (quoted key ++ ':' :: ' ' :: prettyChars level value) :: prettyMembers level rest

end

def compact (doc : Json) : String :=
  String.ofList (compactChars doc)

def pretty (doc : Json) : String :=
  String.ofList (prettyChars 0 doc)

end Json
end StackSynth
