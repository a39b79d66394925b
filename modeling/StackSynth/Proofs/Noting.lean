import StackSynth.Proofs.Action
import StackSynth.StackFile

/-!
# Noting — where unknown keys come from

A reading notes the keys that no record knows.  Each of them is a key of the data that were read,
and the keys and indices that are noted with it lead there.

* `Data.At`, `Data.Holds` — what the keys and indices on a way lead to, and keys at its end;
* `Reading.Notes` — with one law for every way to make a reading;
* `Record.notes_read` — a record notes keys of its data if its fields do;
* `StackFile.notes_read`, `Layer.notes_readFile` — the files that are read.
-/

namespace StackSynth

/-! ## Ways into data -/

namespace Data

variable {δ : Type} [Data δ]

/-- The value to which the keys and indices lead. -/
inductive At : δ → List String → δ → Prop
  | here (d : δ) : At d [] d
  | under {d value e : δ} {entries : List (String × δ)} {closed : Bool} {key : String}
      {keys : List String} (map : shape d = .map entries closed) (among : (key, value) ∈ entries)
      (more : At value keys e) : At d (key :: keys) e
  | item {d x e : δ} {items : List δ} {i : Nat} {keys : List String}
      (sequence : shape d = .sequence items) (found : items[i]? = some x) (more : At x keys e) :
      At d (toString i :: keys) e

/-- The last of the keys is one of a map to which the others lead. -/
inductive Holds (d : δ) : List String → Prop
  | key {e value : δ} {front : List String} {entries : List (String × δ)} {closed : Bool}
      {key : String} (reached : At d front e) (map : shape e = .map entries closed)
      (among : (key, value) ∈ entries) : Holds d (front ++ [key])

variable {d value : δ} {key : String} {keys : List String}

theorem Holds.own {entries : List (String × δ)} {closed : Bool}
    (map : shape d = .map entries closed) (among : (key, value) ∈ entries) : Holds d [key] :=
  .key (.here d) map among

theorem Holds.under {entries : List (String × δ)} {closed : Bool}
    (map : shape d = .map entries closed) (among : (key, value) ∈ entries)
    (holds : Holds value keys) : Holds d (key :: keys) := by
  cases holds with
  | key reached last known => exact .key (.under map among reached) last known

theorem Holds.item {items : List δ} {i : Nat} (sequence : shape d = .sequence items)
    (found : items[i]? = some value) (holds : Holds value keys) :
    Holds d (toString i :: keys) := by
  cases holds with
  | key reached last known => exact .key (.item sequence found reached) last known

end Data

/-! ## Readings -/

namespace Reading

variable {δ α β : Type} {P Q : UnknownKey → Prop}

/-- Whatever key is noted has the property. -/
def Notes (reading : Reading α) (P : UnknownKey → Prop) : Prop :=
  ∀ keys value left, reading keys = .ok (value, left) →
    ∃ new, left = keys ++ new ∧ ∀ key ∈ new, P key

/-- Nothing is noted. -/
theorem Notes.pure (value : α) : Notes (pure value) P := by
  intro keys value' left read
  cases read
  exact ⟨[], (List.append_nil _).symm, List.forall_mem_nil _⟩

theorem Notes.throw (e : Mismatch) : Notes (throw e : Reading α) P := by
  intro keys value left read
  cases read

theorem Notes.lift (result : Except Mismatch α) : Notes (liftM result) P := by
  intro keys value left read
  obtain ⟨found, -, done⟩ := bind_eq_ok_iff.mp read
  cases done
  exact ⟨[], (List.append_nil _).symm, List.forall_mem_nil _⟩

theorem Notes.bind {first : Reading α} {rest : α → Reading β} (one : first.Notes P)
    (other : ∀ value, (rest value).Notes P) : Notes (first >>= rest) P := by
  intro keys value left read
  obtain ⟨⟨mid, middle⟩, began, read⟩ := bind_eq_ok_iff.mp read
  obtain ⟨new, rfl, good⟩ := one keys mid middle began
  obtain ⟨newer, rfl, better⟩ := other mid _ value left read
  exact ⟨new ++ newer, List.append_assoc _ _ _, List.forall_mem_append.mpr ⟨good, better⟩⟩

theorem Notes.note {key : UnknownKey} (holds : P key) : Notes (note key) P := by
  intro keys value left read
  cases read
  exact ⟨[key], rfl, List.forall_mem_singleton.mpr holds⟩

theorem Notes.under {reading : Reading α} {key : String} (notes : reading.Notes Q)
    (below : ∀ keys, Q keys → P (key :: keys)) : Notes (under key reading) P := by
  intro keys value left read
  obtain ⟨⟨found, inner⟩, began, done⟩ := bind_eq_ok_iff.mp read
  cases done
  obtain ⟨new, rfl, good⟩ := notes _ _ _ began
  exact ⟨_, rfl, List.forall_mem_map.mpr fun keys noted => below keys (good keys noted)⟩

variable [Data δ]

/-- The reading notes keys of its data only. -/
def Within (read : δ → Reading α) : Prop :=
  ∀ d, (read d).Notes (Data.Holds d)

theorem within_textFor (expected : String) : Within (textFor (δ := δ) expected) := by
  intro d
  unfold textFor
  split
  · exact .pure _
  · exact .throw _

theorem within_text : Within (text (δ := δ)) :=
  within_textFor _

theorem within_path : Within (path (δ := δ)) := fun d =>
  .bind (within_textFor _ d) fun _ => .pure _

theorem within_bool : Within (bool (δ := δ)) := by
  intro d
  unfold bool
  split
  · exact .pure _
  · exact .throw _

theorem within_variant (ofName? : String → Option α) (names : List String) :
    Within (variant (δ := δ) ofName? names) := by
  intro d
  refine .bind (.lift _) fun ⟨name, rest⟩ => ?_
  dsimp only
  split
  · exact .throw _
  · exact .bind (.lift _) fun _ => .pure _

theorem notes_items {read : δ → Reading α} (within : Within read) {d : δ} {all rest : List δ}
    (sequence : Data.shape d = .sequence all) (index : Nat)
    (placed : ∀ i x, rest[i]? = some x → all[index + i]? = some x) :
    Notes (items read index rest) (Data.Holds d) := by
  -- What is left of the sequence stands in the whole of it from the index on.
  induction rest generalizing index with
  | nil => exact .pure _
  | cons x rest ih =>
      have later : ∀ i y, rest[i]? = some y → all[index + 1 + i]? = some y := fun i y found => by
        rw [Nat.add_right_comm]
        exact placed (i + 1) y found
      have own := placed 0 x rfl
      refine .bind (.under (within x) fun keys noted => .item sequence own noted) fun value => ?_
      exact .bind (ih _ later) fun values => .pure _

theorem within_sequence {read : δ → Reading α} (within : Within read) :
    Within (sequence read) := by
  intro d
  unfold Reading.sequence
  split
  · rename_i found known
    exact notes_items within known 0 fun i x at_i => by rwa [Nat.zero_add]
  · exact .throw _

theorem notes_entries {read : δ → Reading α} (within : Within read) {d : δ}
    {all : List (String × δ)} {closed : Bool} (map : Data.shape d = .map all closed)
    {found : List (String × δ)} (among : found ⊆ all) (dictionary : Dictionary α) :
    Notes (entries read dictionary found) (Data.Holds d) := by
  induction found generalizing dictionary with
  | nil => exact .pure _
  | cons entry rest ih =>
      obtain ⟨own, others⟩ := List.cons_subset.mp among
      exact .bind (.under (within entry.2) fun keys noted => .under map own noted) fun value =>
        ih others _

theorem within_dictionary {read : δ → Reading α} (within : Within read) :
    Within (dictionary read) := by
  intro d
  unfold Reading.dictionary
  split
  · rename_i found closed known
    refine .bind (notes_entries within known (List.Subset.refl _) []) fun values => ?_
    split
    · exact .pure _
    · exact .throw _
  · exact .throw _

theorem within_value : Within Reading.value := fun _ =>
  .lift _

end Reading

/-! ## Records -/

namespace Record

open Reading

variable {δ σ α : Type} [Data δ]

/-- The field notes keys of its value only. -/
def FieldWithin (field : Field δ σ) : Prop :=
  ∀ draft, Within fun d => field.read d draft

theorem field_within {key : String} {read : δ → Reading α} {put : σ → α → σ}
    (within : Within read) : FieldWithin (field key read put) := fun _ d =>
  .bind (within d) fun _ => .pure _

theorem optionalField_within {key : String} {read : δ → Reading α} {put : σ → α → σ}
    (within : Within read) : FieldWithin (optionalField key read put) := fun _ d =>
  .bind (within d) fun _ => .pure _

variable {record : Record δ σ} (within : ∀ field ∈ record.fields, FieldWithin field)

include within

theorem notes_readEntries {d : δ} {all : List (String × δ)} {closed : Bool}
    (map : Data.shape d = .map all closed) {found : List (String × δ)} (among : found ⊆ all)
    (seen : List String) (draft : σ) :
    Notes (record.readEntries seen draft found) (Data.Holds d) := by
  induction found generalizing seen draft with
  | nil => exact .pure _
  | cons entry rest ih =>
      obtain ⟨own, others⟩ := List.cons_subset.mp among
      rw [readEntries]
      split
      · rename_i field known
        split
        · -- The field is there twice.
          exact .throw _
        · have within := within field (List.mem_of_find?_eq_some known) draft entry.2
          exact .bind (.under within fun keys noted => .under map own noted) fun next =>
            ih others _ _
      · split
        · exact ih others _ _
        · split
          · -- The key is unknown, and it is one of the data.
            exact .bind (.note (.own map own)) fun _ => ih others _ _
          · exact .throw _

theorem notes_readItems {d : δ} {all rest : List δ} (sequence : Data.shape d = .sequence all)
    (exact : Bool) {fields : List (Field δ σ)} (known : fields ⊆ record.fields) (draft : σ)
    (index : Nat) (placed : ∀ i x, rest[i]? = some x → all[index + i]? = some x) :
    Notes (record.readItems exact index fields draft rest) (Data.Holds d) := by
  induction fields generalizing draft index rest with
  | nil =>
      rw [readItems]
      split
      · exact .throw _
      · exact .pure _
  | cons field fields ih =>
      obtain ⟨own, others⟩ := List.cons_subset.mp known
      cases rest with
      | nil =>
          rw [readItems]
          split
          · exact ih others _ _ fun i x impossible => nomatch impossible
          · exact .throw _
      | cons x rest =>
          -- The index moves on with the items, so that the rest of them is known at its own places.
          have later : ∀ i y, rest[i]? = some y → all[index + 1 + i]? = some y :=
            fun i y found => by
              rw [Nat.add_right_comm]
              exact placed (i + 1) y found
          have first := placed 0 x rfl
          rw [readItems]
          refine .bind (.under (within field own draft x) fun keys noted => ?_) fun next => ?_
          · exact .item sequence first noted
          · exact ih others next _ later

/-- What the fields note of their values, the record notes of its data. -/
theorem notes_read (start : σ) (finish : σ → Except Mismatch α) :
    Within (record.read start finish) := by
  intro d
  unfold Record.read
  dsimp only
  split
  · rename_i found closed known
    refine .bind (notes_readEntries within known (List.Subset.refl _) [] _) fun draft => ?_
    split
    · exact .bind (.pure _) fun _ => .lift _
    · exact .bind (.throw _) fun _ => .lift _
  · rename_i found known _
    refine .bind ?_ fun _ => .lift _
    refine notes_readItems within known _ (List.Subset.refl _) _ 0 fun i x at_i => ?_
    rwa [Nat.zero_add]
  · exact .bind (.throw _) fun _ => .lift _

end Record

/-! ## Files -/

open Reading Record

theorem ProviderDecl.notes_read : Within ProviderDecl.read := by
  refine Record.notes_read ?_ _ _
  simp only [List.forall_mem_cons]
  exact ⟨field_within within_text, field_within within_text, field_within within_text,
    field_within within_text, List.forall_mem_nil _⟩

theorem AssetDecl.notes_read : Within AssetDecl.read := by
  refine Record.notes_read ?_ _ _
  simp only [List.forall_mem_cons]
  exact ⟨field_within within_text, field_within within_path,
    optionalField_within (within_variant _ _), List.forall_mem_nil _⟩

theorem ResourceDecl.notes_read : Within ResourceDecl.read := by
  refine Record.notes_read ?_ _ _
  simp only [List.forall_mem_cons]
  exact ⟨field_within within_text, field_within within_text, List.forall_mem_nil _⟩

theorem OutputDecl.notes_read : Within OutputDecl.read := by
  refine Record.notes_read ?_ _ _
  simp only [List.forall_mem_cons]
  exact ⟨field_within within_text, field_within within_value, field_within within_text,
    optionalField_within within_bool, List.forall_mem_nil _⟩

theorem ModuleDecl.notes_read : Within ModuleDecl.read := by
  refine Record.notes_read ?_ _ _
  simp only [List.forall_mem_cons]
  exact ⟨field_within within_text, field_within within_text, field_within within_text,
    optionalField_within (within_dictionary within_value), List.forall_mem_nil _⟩

theorem Layer.notes_read : Within Layer.read := by
  refine Record.notes_read ?_ _ _
  simp only [Layer.record, List.forall_mem_cons]
  exact ⟨optionalField_within within_path, optionalField_within within_text,
    List.forall_mem_nil _⟩

/-- The file of the user notes its own keys. -/
theorem Layer.notes_readFile : Within (Layer.fileRecord.read {} .ok) := by
  refine Record.notes_read ?_ _ _
  simp only [Layer.fileRecord, List.forall_mem_singleton]
  exact optionalField_within Layer.notes_read

theorem StackFile.notes_readName : Within StackFile.readName := by
  refine Record.notes_read ?_ _ _
  simp only [List.forall_mem_singleton]
  exact field_within within_text

/-- A stack file notes its own keys. -/
theorem StackFile.notes_read (base : Path) : Within (StackFile.read base) := by
  refine Record.notes_read ?_ _ _
  simp only [StackFile.record, List.forall_mem_cons]
  exact ⟨optionalField_within Layer.notes_read, field_within StackFile.notes_readName,
    optionalField_within (within_sequence ProviderDecl.notes_read),
    optionalField_within (within_sequence AssetDecl.notes_read),
    optionalField_within (within_sequence ResourceDecl.notes_read),
    optionalField_within (within_sequence OutputDecl.notes_read),
    optionalField_within (within_sequence ModuleDecl.notes_read), List.forall_mem_nil _⟩

end StackSynth
