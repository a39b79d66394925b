/-!
# Bytes — octet strings and their written forms

File contents, file names and digests are lists of octets.  This file fixes the type and the
spellings the rest of the library needs:

* `Bytes.hex` / `Bytes.ofHex?` — two lower-case hexadecimal digits per octet, and back;
* `Bytes.littleEndian` / `Bytes.bigEndian` — a number in a fixed count of octets;
* `Bytes.octal` — a number in a fixed count of octal digits;
* `Bytes.splitOn` / `Bytes.joinWith` — fields around a separator, mutually inverse on fields
  that do not hold the separator.
-/

namespace StackSynth

/-- A string of octets. -/
abbrev Bytes := List UInt8

namespace Bytes

/-! ## Hexadecimal -/

/-- The digit of a number below sixteen, lower case. -/
def hexDigit (n : Nat) : Char :=
  if n < 10 then Char.ofNat (48 + n) else Char.ofNat (87 + n)

/-- Two hexadecimal digits per octet, high half first. -/
def hexDigits : Bytes → List Char
  | [] => []
  | b :: bs => hexDigit (b.toNat / 16) :: hexDigit (b.toNat % 16) :: hexDigits bs

def hex (bs : Bytes) : String :=
  String.ofList (hexDigits bs)

/-- The value of a hexadecimal digit in either case. -/
def hexValue? (c : Char) : Option Nat :=
  if '0' ≤ c ∧ c ≤ '9' then some (c.toNat - 48)
  else if 'a' ≤ c ∧ c ≤ 'f' then some (c.toNat - 87)
  else if 'A' ≤ c ∧ c ≤ 'F' then some (c.toNat - 55)
  else none

def ofHexDigits? : List Char → Option Bytes
  | [] => some []
  | [_] => none
  | h :: l :: rest => do
      let high ← hexValue? h
      let low ← hexValue? l
      let tail ← ofHexDigits? rest
      return UInt8.ofNat (16 * high + low) :: tail

def ofHex? (text : String) : Option Bytes :=
  ofHexDigits? text.toList

/-! ## Numbers in a fixed width -/

/-- The lowest `width` octets of `n`, least significant first. -/
def littleEndian : (width : Nat) → (n : Nat) → Bytes
  | 0, _ => []
  | width + 1, n => UInt8.ofNat (n % 256) :: littleEndian width (n / 256)

/-- The lowest `width` octets of `n`, most significant first. -/
def bigEndian (width n : Nat) : Bytes :=
  (littleEndian width n).reverse

/-- The number that a string of octets spells, least significant first. -/
def ofLittleEndian : Bytes → Nat
  | [] => 0
  | b :: bs => b.toNat + 256 * ofLittleEndian bs

/-- The lowest `width` octal digits of `n`, most significant first. -/
def octal : (width : Nat) → (n : Nat) → Bytes
  | 0, _ => []
  | width + 1, n => octal width (n / 8) ++ [UInt8.ofNat (48 + n % 8)]

/-- The number that octal digits spell, most significant first. -/
def ofOctal? (digits : Bytes) : Option Nat :=
  digits.foldl
    (fun value digit => do
      let n ← value
      if 48 ≤ digit ∧ digit ≤ 55 then some (8 * n + (digit.toNat - 48)) else none)
    (some 0)

/-! ## Fields around a separator -/

/-- The fields between occurrences of `sep`; always at least one. -/
def splitOn (sep : UInt8) : Bytes → List Bytes
  | [] => [[]]
  | b :: bs =>
      if b = sep then
        [] :: splitOn sep bs
      else
        match splitOn sep bs with
        | [] => [[b]]
        | field :: fields => (b :: field) :: fields

/-- The fields with `sep` between neighbours. -/
def joinWith (sep : UInt8) : List Bytes → Bytes
  | [] => []
  | [field] => field
  | field :: fields => field ++ sep :: joinWith sep fields

/-! ## Order -/

/-- Octet by octet; a proper initial part comes first. -/
def before : Bytes → Bytes → Bool
  | [], [] => false
  | [], _ :: _ => true
  | _ :: _, [] => false
  | a :: as, b :: bs => a < b || (a == b && before as bs)

end Bytes

/-- The slash between the names of a path. -/
def slash : UInt8 := 47

/-- The dot that starts an extension, and the name of the current directory. -/
def dot : UInt8 := 46

end StackSynth
