import StackSynth.Json.Printer
import StackSynth.Text.Hidden

/-!
# Mismatch — why data does not fit a record

Configuration files and manifests are read into records.  Data may not fit even as far as it is
well formed: one constructor for each cause, and one function for the wording.
-/

namespace StackSynth

/-- What was found, as far as the wording needs it. -/
inductive Found where
  | null
  | bool (value : Bool)
  | integer (value : Int)
  /-- A number with a fraction, as it is shown. -/
  | fraction (text : String)
  | text (value : String)
  | sequence
  | map

inductive Mismatch where
  /-- The data is not well formed where it is read. -/
  | malformed
  | unexpected (found : Found) (expected : String)
  | missing (field : String)
  | repeated (field : String)
  | tooFew (count : Nat) (expected : String)
  | unknownVariant (name : String) (known : List String)
  /-- Neither the name of a variant nor a table of one entry. -/
  | noVariant
  | variantCount (several : Bool)
  /-- A variant has no body, but an empty table may stand for it; any other scalar is named. -/
  | variantBody (scalar : Option String)
  /-- The same, where an array of tables stands. -/
  | variantTables
  | noDateTime

namespace Found

/-! ## Quoting -/

/-- A character between quotes; one that cannot be read is shown by its number. -/
def shownChar (c : Char) : List Char :=
  match c with
  | '"' => ['\\', '"']
  | '\\' => ['\\', '\\']
  | '\n' => ['\\', 'n']
  | '\r' => ['\\', 'r']
  | '\t' => ['\\', 't']
  | '\x00' => ['\\', '0']
  | c =>
      if Text.isHidden c then '\\' :: 'u' :: '{' :: (Nat.toDigits 16 c.toNat ++ ['}']) else [c]

def quotedText (text : String) : String :=
  String.ofList ('"' :: (text.toList.flatMap shownChar ++ ['"']))

/-- A double in positional notation, whatever its size, with at least one digit after the
point. -/
def positionalText : Binary64 → String
  | .finite negative significand exponent =>
      let digits :=
        if significand = 0 then ['0', '.', '0']
        else
          let d := Shortest.shortest significand exponent
          let all := Json.naturalText d.digits
          Json.positional (Json.trimZeros all) (d.scale + all.length)
      String.ofList (if negative then '-' :: digits else digits)
  | .infinite negative => if negative then "-inf" else "inf"
  | .nan => "NaN"

def describe : Found → String
  | .null => "null"
  | .bool value => "boolean `" ++ (if value then "true" else "false") ++ "`"
  | .integer value => "integer `" ++ toString value ++ "`"
  | .fraction shown => "floating point `" ++ shown ++ "`"
  | .text value => "string " ++ quotedText value
  | .sequence => "sequence"
  | .map => "map"

end Found

/-- The names between backquotes, with commas. -/
def quotedNames : List String → String
  | [] => ""
  | [name] => "`" ++ name ++ "`"
  | name :: rest => "`" ++ name ++ "`, " ++ quotedNames rest

def Mismatch.message : Mismatch → String
  | .malformed => "malformed document"
  | .unexpected found expected => "invalid type: " ++ found.describe ++ ", expected " ++ expected
  | .missing field => "missing field `" ++ field ++ "`"
  | .repeated field => "duplicate field `" ++ field ++ "`"
  | .tooFew count expected => "invalid length " ++ toString count ++ ", expected " ++ expected
  | .unknownVariant name known =>
      "unknown variant `" ++ name ++ "`, expected one of " ++ quotedNames known
  | .noVariant => "wanted string or table"
  | .variantCount several =>
      "wanted exactly 1 element, "
        ++ (if several then "more than 1 element" else "found 0 elements")
  | .variantBody none => "expected empty table"
  | .variantTables => "expected empty array"
  | .variantBody (some scalar) => "expected table, found " ++ scalar
  | .noDateTime => "failed to parse datetime"

/-- A record of `count` fields, as it is named where one was expected. -/
def recordOf (name : String) (count : Nat) : String :=
  "struct " ++ name ++ " with " ++ toString count ++ (if count = 1 then " element" else " elements")

end StackSynth
