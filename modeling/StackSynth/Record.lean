import StackSynth.Json.Outline
import StackSynth.Mismatch
import StackSynth.Path
import StackSynth.Toml

/-!
# Record — records read from data

Data of any format are seen as scalars, sequences and maps, which may break off.  A record is
written as a map or as a sequence of its fields, and is described by the list of its fields.

* `Data` — what a format has to tell about its values;
* `Reading` — a value, together with the unknown keys met on the way, or a mismatch;
* `Record.read` — the entries of a map in the order of the document, so that the first one that
  does not fit is the one that is reported; what is missing is reported at the end.
-/

namespace StackSynth

/-! ## Data -/

/-- A value as a reader of records sees it. -/
inductive Shape (δ : Type) where
  /-- No value can be read. -/
  | broken
  | scalar (found : Found)
  | sequence (items : List δ)
  /-- A map that is not `closed` breaks off after its entries. -/
  | map (entries : List (String × δ)) (closed : Bool)

/-- The mismatch of a value where `expected` is wanted. -/
def Shape.mismatch {δ : Type} (expected : String) : Shape δ → Mismatch
  | .broken => .malformed
  | .scalar found => .unexpected found expected
  | .sequence _ => .unexpected .sequence expected
  | .map _ _ => .unexpected .map expected

/-- A format of data. -/
class Data (δ : Type) where
  shape : δ → Shape δ
  /-- The name of a variant, and what is wrong with the rest of the value if the name is known. -/
  variant : δ → Except Mismatch (String × Except Mismatch Unit)
  /-- All of the value can be read. -/
  whole : δ → Bool
  /-- A sequence may not be longer than the record that it stands for. -/
  exact : Bool

namespace Json.Outline

def numberFound : Number → Found
  | .integer value => .integer value
  | .double value => .fraction (String.ofList (doubleText value))

/-- The members up to the first one whose key cannot be read, and whether these are all. -/
def readable : List (Option String × Outline) → List (String × Outline) × Bool
  | [] => ([], true)
  | (none, _) :: _ => ([], false)
  | (some key, value) :: rest =>
      let (entries, closed) := readable rest
      ((key, value) :: entries, closed)

def shape : Outline → Shape Outline
  | .broken => .broken
  | .null => .scalar .null
  | .bool value => .scalar (.bool value)
  | .number (some value) => .scalar (numberFound value)
  | .number none => .broken
  | .string (some value) => .scalar (.text value)
  | .string none => .broken
  | .array items => .sequence items
  | .object members =>
      let (entries, closed) := readable members
      .map entries closed

/-- Nothing but `null` stands where a variant has no body, and one variant is all. -/
def variantRest (body : Outline) (others : List (Option String × Outline)) :
    Except Mismatch Unit :=
  match body with
  | .null => if others.isEmpty then .ok () else .error .malformed
  | body => .error (body.shape.mismatch "unit")

def variant : Outline → Except Mismatch (String × Except Mismatch Unit)
  | .string (some name) => .ok (name, .ok ())
  | .object ((some name, body) :: others) => .ok (name, variantRest body others)
  | _ => .error .malformed

instance : Data Outline := ⟨shape, variant, whole, true⟩

end Json.Outline

namespace Toml

def shape : Toml → Shape Toml
  | .string value => .scalar (.text value)
  | .integer value => .scalar (.integer value)
  | .double value => .scalar (.fraction (Found.positionalText value))
  | .bool value => .scalar (.bool value)
  | .dateTime value => .map [(dateTimeKey, .string value.text)] true
  | .array items => .sequence items
  | .tables items => .sequence items
  | .table entries => .map entries true

def variantBody : Toml → Except Mismatch Unit
  | .array items => if items.isEmpty then .ok () else .error (.variantBody none)
  | .tables items => if items.isEmpty then .ok () else .error .variantTables
  | .table entries => if entries.isEmpty then .ok () else .error (.variantBody none)
  | .string _ => .error (.variantBody "string")
  | .integer _ => .error (.variantBody "integer")
  | .double _ => .error (.variantBody "float")
  | .bool _ => .error (.variantBody "boolean")
  | .dateTime _ => .error (.variantBody "datetime")

def variant : Toml → Except Mismatch (String × Except Mismatch Unit)
  | .string name => .ok (name, .ok ())
  | .table [(name, body)] => .ok (name, variantBody body)
  | .table entries => .error (.variantCount !entries.isEmpty)
  | _ => .error .noVariant

instance : Data Toml := ⟨shape, variant, fun _ => true, false⟩

end Toml

/-! ## Readings -/

/-- A key that no record knows, with the keys and indices that lead to it. -/
abbrev UnknownKey := List String

abbrev Reading := StateT (List UnknownKey) (Except Mismatch)

namespace Reading

variable {δ α : Type}

def note (key : UnknownKey) : Reading Unit :=
  modify fun keys => keys ++ [key]

/-- A reading of what stands under a key. -/
def under (key : String) (reading : Reading α) : Reading α := fun keys => do
  let (value, inner) ← reading []
  return (value, keys ++ inner.map (key :: ·))

def run (reading : Reading α) : Except Mismatch (α × List UnknownKey) :=
  reading []

variable [Data δ]

def mismatch (d : δ) (expected : String) : Mismatch :=
  (Data.shape d).mismatch expected

/-- Text, where `expected` is wanted. -/
def textFor (expected : String) (d : δ) : Reading String :=
  match Data.shape d with
  | .scalar (.text value) => pure value
  | _ => throw (mismatch d expected)

def text (d : δ) : Reading String :=
  textFor "a string" d

def path (d : δ) : Reading Path := do
  return Path.ofString (← textFor "path string" d)

def bool (d : δ) : Reading Bool :=
  match Data.shape d with
  | .scalar (.bool value) => pure value
  | _ => throw (mismatch d "a boolean")

/-- The items of a sequence, the first of them numbered `index`. -/
def items (read : δ → Reading α) (index : Nat) : List δ → Reading (List α)
  | [] => pure []
  | item :: rest => do
      let value ← under (toString index) (read item)
      return value :: (← items read (index + 1) rest)

def sequence (read : δ → Reading α) (d : δ) : Reading (List α) :=
  match Data.shape d with
  | .sequence found => items read 0 found
  | _ => throw (mismatch d "a sequence")

def entries (read : δ → Reading α) : Dictionary α → List (String × δ) → Reading (Dictionary α)
  | dictionary, [] => pure dictionary
  | dictionary, (key, value) :: rest => do
      entries read (dictionary.insert key (← under key (read value))) rest

def dictionary (read : δ → Reading α) (d : δ) : Reading (Dictionary α) :=
  match Data.shape d with
  | .map found closed => do
      let values ← entries read [] found
      if closed then return values else throw .malformed
  | _ => throw (mismatch d "a map")

/-- One of some variants, given by their names. -/
def variant (ofName? : String → Option α) (names : List String) (d : δ) : Reading α := do
  let (name, rest) ← Data.variant d
  match ofName? name with
  | none => throw (.unknownVariant name names)
  | some value =>
      rest
      return value

end Reading

/-! ## Records -/

/-- A field of a record that is read from `δ` into a draft `σ`. -/
structure Field (δ σ : Type) where
  key : String
  read : δ → σ → Reading σ
  /-- The field may be missing from a sequence. -/
  optional : Bool

/-- A record that is read from `δ` into a draft `σ`. -/
structure Record (δ σ : Type) where
  name : String
  fields : List (Field δ σ)
  /-- Takes in the keys that are no fields; a record that does so is no sequence. -/
  others : Option (String → δ → σ → σ)

namespace Record

variable {δ σ α : Type}

/-- A field whose value is put into the draft. -/
def field (key : String) (read : δ → Reading α) (put : σ → α → σ) : Field δ σ :=
  ⟨key, fun d draft => do return put draft (← read d), false⟩

/-- The same, where a sequence may leave the field out. -/
def optionalField (key : String) (read : δ → Reading α) (put : σ → α → σ) : Field δ σ :=
  { field key read put with optional := true }

/-- The value of a field that has to be there. -/
def needed (key : String) : Option α → Except Mismatch α
  | some value => .ok value
  | none => .error (.missing key)

/-- Fills the draft from entries; `seen` are the fields that came before. -/
def readEntries [Data δ] (record : Record δ σ) :
    (seen : List String) → σ → List (String × δ) → Reading σ
  | _, draft, [] => pure draft
  | seen, draft, (key, value) :: rest =>
      match record.fields.find? fun field => field.key == key with
      | some field =>
          if seen.contains key then throw (.repeated key)
          else do
            let draft ← Reading.under key (field.read value draft)
            readEntries record (key :: seen) draft rest
      | none =>
          match record.others with
          | some take => readEntries record seen (take key value draft) rest
          | none =>
              if Data.whole value then do
                Reading.note [key]
                readEntries record seen draft rest
              else throw .malformed

/-- Fills the draft from items, one for each field; `index` items came before. -/
def readItems (record : Record δ σ) (exact : Bool) :
    (index : Nat) → List (Field δ σ) → σ → List δ → Reading σ
  | _, [], draft, rest => if exact && !rest.isEmpty then throw .malformed else pure draft
  | index, field :: fields, draft, [] =>
      if field.optional then readItems record exact (index + 1) fields draft []
      else throw (.tooFew index (recordOf record.name record.fields.length))
  | index, field :: fields, draft, item :: rest => do
      let draft ← Reading.under (toString index) (field.read item draft)
      readItems record exact (index + 1) fields draft rest

/-- Reads a record into the draft, which `finish` then turns into the record itself. -/
def read [Data δ] (record : Record δ σ) (start : σ) (finish : σ → Except Mismatch α) (d : δ) :
    Reading α := do
  let draft ←
    match Data.shape d, record.others with
    | .map found closed, _ => do
        let draft ← record.readEntries [] start found
        if closed then pure draft else throw .malformed
    | .sequence found, none => record.readItems (Data.exact δ) 0 record.fields start found
    | _, _ => throw (Reading.mismatch d ("struct " ++ record.name))
  finish draft

end Record
end StackSynth
