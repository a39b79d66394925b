import StackSynth.Proofs.Action
import StackSynth.Proofs.Dictionary
import StackSynth.StackFile

/-!
# Reading — what has been read of a file

A reading keeps to a property if whatever it gives has it.  Records are read into drafts, and what
every field keeps of a draft is kept by the record.

* `Reading.Gives` — with one law for every way to make a reading;
* `Record.Keeps`, `Record.gives_read` — what the fields keep, a record that has been read has;
* `StackFile.Ordered`, `StackFile.ordered_ofText` — the attributes of a declaration in a file that
  has been read stand in the order of their keys, each key once.
-/

namespace StackSynth

/-! ## Readings -/

namespace Reading

variable {δ α β : Type} {P : α → Prop} {Q : β → Prop}

/-- Whatever is read has the property. -/
def Gives (reading : Reading α) (P : α → Prop) : Prop :=
  ∀ keys value left, reading keys = .ok (value, left) → P value

theorem Gives.pure {value : α} (holds : P value) : Gives (pure value) P := by
  intro keys value' left read
  cases read
  exact holds

theorem Gives.throw (e : Mismatch) : Gives (throw e) P := by
  intro keys value left read
  cases read

theorem Gives.bind {first : Reading α} {rest : α → Reading β} (one : first.Gives P)
    (other : ∀ value, P value → (rest value).Gives Q) : Gives (first >>= rest) Q := by
  intro keys value left read
  obtain ⟨⟨mid, middle⟩, began, read⟩ := bind_eq_ok_iff.mp read
  exact other mid (one keys mid middle began) middle value left read

/-- A result that does not read is read by giving it. -/
theorem Gives.lift {result : Except Mismatch α} (holds : ∀ value, result = .ok value → P value) :
    Gives (liftM result) P := by
  intro keys value left read
  obtain ⟨found, known, done⟩ := bind_eq_ok_iff.mp read
  cases done
  exact holds _ known

theorem Gives.any (reading : Reading α) : reading.Gives fun _ => True :=
  fun _ _ _ _ => trivial

theorem Gives.under {reading : Reading α} (gives : reading.Gives P) (key : String) :
    Gives (under key reading) P := by
  intro keys value left read
  obtain ⟨⟨found, inner⟩, began, done⟩ := bind_eq_ok_iff.mp read
  cases done
  exact gives _ _ _ began

theorem Gives.items {read : δ → Reading α} (gives : ∀ d, (read d).Gives P) (index : Nat)
    (ds : List δ) : Gives (items read index ds) fun values => ∀ value ∈ values, P value := by
  induction ds generalizing index with
  | nil => exact .pure (by simp)
  | cons d ds ih =>
      refine .bind ((gives d).under _) fun value holds => ?_
      refine .bind (ih (index + 1)) fun values all => ?_
      exact .pure (List.forall_mem_cons.mpr ⟨holds, all⟩)

theorem Gives.sequence [Data δ] {read : δ → Reading α} (gives : ∀ d, (read d).Gives P) (d : δ) :
    Gives (sequence read d) fun values => ∀ value ∈ values, P value := by
  unfold Reading.sequence
  split
  · exact .items gives 0 _
  · exact .throw _

theorem Gives.entries {read : δ → Reading α} {dictionary : Dictionary α}
    (sorted : dictionary.Sorted) (found : List (String × δ)) :
    Gives (entries read dictionary found) Dictionary.Sorted := by
  induction found generalizing dictionary with
  | nil => exact .pure sorted
  | cons entry rest ih => exact .bind (.any _) fun value _ => ih (sorted.insert _ value)

/-- Entries are put in order as they are read. -/
theorem Gives.dictionary [Data δ] (read : δ → Reading α) (d : δ) :
    Gives (dictionary read d) Dictionary.Sorted := by
  unfold Reading.dictionary
  split
  · refine .bind (.entries Dictionary.sorted_nil _) fun values sorted => ?_
    split
    · exact .pure sorted
    · exact .throw _
  · exact .throw _

end Reading

/-! ## Records -/

namespace Record

open Reading

variable {δ σ α : Type} {P : σ → Prop} {Q : α → Prop}

/-- A draft with the property still has it when the field has been read. -/
def FieldKeeps (P : σ → Prop) (field : Field δ σ) : Prop :=
  ∀ d draft, P draft → Gives (field.read d draft) P

structure Keeps (record : Record δ σ) (P : σ → Prop) : Prop where
  fields : ∀ field ∈ record.fields, FieldKeeps P field
  others : ∀ take, record.others = some take → ∀ key d draft, P draft → P (take key d draft)

theorem field_keeps {key : String} {read : δ → Reading α} {put : σ → α → σ}
    (gives : ∀ d, Gives (read d) Q)
    (put_keeps : ∀ draft value, P draft → Q value → P (put draft value)) :
    FieldKeeps P (field key read put) := fun d draft holds =>
  (gives d).bind fun value good => .pure (put_keeps draft value holds good)

theorem optionalField_keeps {key : String} {read : δ → Reading α} {put : σ → α → σ}
    (gives : ∀ d, Gives (read d) Q)
    (put_keeps : ∀ draft value, P draft → Q value → P (put draft value)) :
    FieldKeeps P (optionalField key read put) := fun d draft holds =>
  (gives d).bind fun value good => .pure (put_keeps draft value holds good)

variable {record : Record δ σ} (keeps : record.Keeps P)

include keeps

theorem gives_readEntries [Data δ] {draft : σ} (holds : P draft) (seen : List String)
    (found : List (String × δ)) : Gives (record.readEntries seen draft found) P := by
  induction found generalizing seen draft with
  | nil => exact .pure holds
  | cons entry rest ih =>
      rw [readEntries]
      split
      · rename_i field known
        split
        · exact .throw _
        · have among := List.mem_of_find?_eq_some known
          exact .bind (.under (keeps.fields _ among _ _ holds) _) fun next kept => ih kept _
      · split
        · rename_i take known
          exact ih (keeps.others take known _ _ _ holds) seen
        · split
          · exact .bind (.any _) fun _ _ => ih holds seen
          · exact .throw _

theorem gives_readItems {draft : σ} (holds : P draft) (exact : Bool) (index : Nat)
    {fields : List (Field δ σ)} (among : fields ⊆ record.fields) (found : List δ) :
    Gives (record.readItems exact index fields draft found) P := by
  induction fields generalizing index draft found with
  | nil =>
      rw [readItems]
      split
      · exact .throw _
      · exact .pure holds
  | cons field fields ih =>
      obtain ⟨own, others⟩ := List.cons_subset.mp among
      cases found with
      | nil =>
          rw [readItems]
          split
          · exact ih holds _ others []
          · exact .throw _
      | cons d rest =>
          rw [readItems]
          exact .bind (.under (keeps.fields _ own _ _ holds) _) fun next kept =>
            ih kept _ others rest

/-- What every field keeps holds of the draft of which the record is made. -/
theorem gives_read [Data δ] {start : σ} {finish : σ → Except Mismatch α} (holds : P start)
    (made : ∀ draft value, P draft → finish draft = .ok value → Q value) (d : δ) :
    Gives (record.read start finish d) Q := by
  have finished : ∀ {draft}, P draft → Gives (liftM (finish draft)) Q := fun kept =>
    .lift fun value done => made _ value kept done
  unfold Record.read
  dsimp only
  split
  · refine .bind (gives_readEntries keeps holds [] _) fun draft kept => ?_
    split
    · exact .bind (.pure kept) fun _ => finished
    · exact .bind (.throw _) fun _ => finished
  · exact .bind (gives_readItems keeps holds _ 0 (List.Subset.refl _) _) fun _ => finished
  · exact .bind (.throw _) fun _ => finished

end Record

/-! ## Stack files -/

theorem Toml.keys_plainEntries {exact : Bool} {entries made : List (String × Toml)}
    (plain : plainEntries exact entries = .ok made) :
    Dictionary.keys made = Dictionary.keys entries := by
  induction entries generalizing made with
  | nil =>
      rw [plainEntries] at plain
      cases plain
      rfl
  | cons entry rest ih =>
      obtain ⟨key, value⟩ := entry
      rw [plainEntries] at plain
      obtain ⟨value', -, plain⟩ := bind_eq_ok_iff.mp plain
      obtain ⟨rest', others, done⟩ := bind_eq_ok_iff.mp plain
      cases done
      exact congrArg (key :: ·) (ih others)

namespace Draft

open Reading Record

/-- The attributes that were read so far are in order. -/
def Ordered (draft : Draft) : Prop :=
  draft.attributes.Sorted

theorem ordered_empty : Ordered {} :=
  Dictionary.sorted_nil

theorem field_ordered {α : Type} {key : String} {read : Toml → Reading α} {put : Draft → α → Draft}
    (same : ∀ draft value, (put draft value).attributes = draft.attributes) :
    FieldKeeps Ordered (field key read put) :=
  field_keeps (fun d => .any (read d)) fun draft value ordered _ => by rwa [Ordered, same]

theorem inputs_ordered : FieldKeeps Ordered inputsField :=
  optionalField_keeps (.dictionary Reading.value) fun _ _ _ sorted => sorted

theorem takeAttribute_ordered (key : String) (d : Toml) (draft : Draft) (ordered : draft.Ordered) :
    (takeAttribute key d draft).Ordered :=
  Dictionary.Sorted.insert ordered key d

/-- What is left of the attributes when the values have been made plain. -/
theorem plainEntries_sorted {draft : Draft} (ordered : draft.Ordered) {exact : Bool}
    {made : Dictionary Toml} (plain : Toml.plainEntries exact draft.attributes = .ok made) :
    made.Sorted := by
  rw [Dictionary.sorted_iff_keys, Toml.keys_plainEntries plain, ← Dictionary.sorted_iff_keys]
  exact ordered

end Draft

open Reading Record Draft

theorem ProviderDecl.gives_read (d : Toml) :
    Gives (ProviderDecl.read d) fun decl => decl.attributes.Sorted := by
  refine Record.gives_read (P := Ordered) ⟨?_, ?_⟩ ordered_empty ?_ d
  · simp only [List.forall_mem_cons]
    exact ⟨field_ordered fun _ _ => rfl, field_ordered fun _ _ => rfl, field_ordered fun _ _ => rfl,
      field_ordered fun _ _ => rfl, List.forall_mem_nil _⟩
  · intro take same
    cases same
    exact takeAttribute_ordered
  · intro draft decl ordered made
    obtain ⟨name, -, made⟩ := bind_eq_ok_iff.mp made
    obtain ⟨attributes, plain, done⟩ := bind_eq_ok_iff.mp made
    cases done
    exact plainEntries_sorted ordered plain

theorem ResourceDecl.gives_read (d : Toml) :
    Gives (ResourceDecl.read d) fun decl => decl.attributes.Sorted := by
  refine Record.gives_read (P := Ordered) ⟨?_, ?_⟩ ordered_empty ?_ d
  · simp only [List.forall_mem_cons]
    exact ⟨field_ordered fun _ _ => rfl, field_ordered fun _ _ => rfl, List.forall_mem_nil _⟩
  · intro take same
    cases same
    exact takeAttribute_ordered
  · intro draft decl ordered made
    obtain ⟨type, -, made⟩ := bind_eq_ok_iff.mp made
    obtain ⟨id, -, made⟩ := bind_eq_ok_iff.mp made
    obtain ⟨attributes, plain, done⟩ := bind_eq_ok_iff.mp made
    cases done
    exact plainEntries_sorted ordered plain

theorem ModuleDecl.gives_read (d : Toml) :
    Gives (ModuleDecl.read d) fun decl => decl.inputs.Sorted := by
  refine Record.gives_read (P := Ordered) ⟨?_, ?_⟩ ordered_empty ?_ d
  · simp only [List.forall_mem_cons]
    exact ⟨field_ordered fun _ _ => rfl, field_ordered fun _ _ => rfl, field_ordered fun _ _ => rfl,
      inputs_ordered, List.forall_mem_nil _⟩
  · intro take same
    cases same
  · intro draft decl ordered made
    obtain ⟨id, -, made⟩ := bind_eq_ok_iff.mp made
    obtain ⟨source, -, done⟩ := bind_eq_ok_iff.mp made
    cases done
    exact ordered

namespace StackFile

/-- The attributes of every declaration stand in the order of their keys. -/
structure Ordered (file : StackFile) : Prop where
  providers : ∀ decl ∈ file.providers, decl.attributes.Sorted
  resources : ∀ decl ∈ file.resources, decl.attributes.Sorted
  modules : ∀ decl ∈ file.modules, decl.inputs.Sorted

theorem gives_read (base : Path) (d : Toml) : Gives (StackFile.read base d) Ordered := by
  refine Record.gives_read (P := fun draft => draft.2.Ordered) ⟨?_, ?_⟩ ?_ ?_ d
  · simp only [record, List.forall_mem_cons]
    refine ⟨?_, ?_, ?_, ?_, ?_, ?_, ?_, List.forall_mem_nil _⟩
    · exact optionalField_keeps (fun d => .any _) fun _ _ ordered _ => { ordered with }
    · exact field_keeps (fun d => .any _) fun _ _ ordered _ => ordered
    · exact optionalField_keeps (.sequence ProviderDecl.gives_read)
        fun _ _ ordered sorted => { ordered with providers := sorted }
    · exact optionalField_keeps (fun d => .any _) fun _ _ ordered _ => { ordered with }
    · exact optionalField_keeps (.sequence ResourceDecl.gives_read)
        fun _ _ ordered sorted => { ordered with resources := sorted }
    · exact optionalField_keeps (fun d => .any _) fun _ _ ordered _ => { ordered with }
    · exact optionalField_keeps (.sequence ModuleDecl.gives_read)
        fun _ _ ordered sorted => { ordered with modules := sorted }
  · intro take same
    cases same
  · constructor <;> simp [blank]
  · intro draft file ordered made
    obtain ⟨name, -, done⟩ := bind_eq_ok_iff.mp made
    cases done
    exact { ordered with }

end StackFile
end StackSynth
