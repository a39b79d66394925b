import StackSynth.Record

/-!
# Value — values of any kind

A table that begins with the key of a date-time stands for the date-time whose text is found
there.

* `Toml.plain` — a value without such tables;
* `Reading.value` — the same as a reading.
-/

namespace StackSynth
namespace Toml

/-- The date-time that a value spells, which is one of `count` entries; the others are passed over
unless the table has to be `exact`. -/
def spelled (exact : Bool) (count : Nat) : Toml → Except Mismatch Toml
  | .string text =>
      match DateTime.ofChars? text.toList with
      | none => .error .noDateTime
      | some dt =>
          if exact && count != 1 then .error (.tooFew count "1 element in map")
          else .ok (.dateTime dt)
  | d => .error (d.shape.mismatch "string containing a datetime")

/-- What stands for a table that begins with the key of a date-time. -/
def stamp? (exact : Bool) (entries : List (String × Toml)) : Option (Except Mismatch Toml) :=
  match entries with
  | (key, d) :: _ => if key = dateTimeKey then some (spelled exact entries.length d) else none
  | [] => none

mutual

def plain (exact : Bool) : Toml → Except Mismatch Toml
  | .array items => do return .array (← plainItems exact items)
  | .tables items => do return .tables (← plainItems exact items)
  | .table entries =>
      match stamp? exact entries with
      | some result => result
      | none => do return .table (← plainEntries exact entries)
  | d => .ok d

def plainItems (exact : Bool) : List Toml → Except Mismatch (List Toml)
  | [] => .ok []
  | item :: rest => do
      let item ← plain exact item
      return item :: (← plainItems exact rest)

def plainEntries (exact : Bool) : List (String × Toml) → Except Mismatch (List (String × Toml))
  | [] => .ok []
  | (key, d) :: rest => do
      let d ← plain exact d
      return (key, d) :: (← plainEntries exact rest)

end

end Toml

/-- A value of any kind. -/
def Reading.value (d : Toml) : Reading Toml :=
  Toml.plain false d

end StackSynth
