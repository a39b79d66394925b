import StackSynth.Proofs.Outlining
import StackSynth.Synthesis

/-!
# Recording — a manifest reads back

A record that is written as an object has its fields in their own order, each once, so that
reading it fills the draft field by field.  What a field is written as is read as the same value
again: types of assets have names of their own, and the mark of a hash is added only where it is
missing.

* `Record.Fills` — entries that fill a draft, one for each field;
* `Record.readEntries_fills` — such entries are read;
* `Manifest.ofText_pretty` — a manifest that is written in lines is read back.
-/

namespace StackSynth

open Json (outlined)

/-! ## Readings -/

namespace Reading

variable {δ α β : Type}

theorem under_pure (key : String) (value : α) : under key (pure value) = pure value := by
  funext keys
  show Except.ok (value, keys ++ [].map (key :: ·)) = Except.ok (value, keys)
  rw [List.map_nil, List.append_nil]

theorem items_pure {read : δ → Reading α} {f : α → δ} {values : List α}
    (reads : ∀ value ∈ values, read (f value) = pure value) (index : Nat) :
    items read index (values.map f) = pure values := by
  induction values generalizing index with
  | nil => rfl
  | cons value rest ih =>
      obtain ⟨first, others⟩ := List.forall_mem_cons.mp reads
      rw [List.map_cons, items, first, under_pure, ih others]
      rfl

theorem entries_pure {read : δ → Reading α} {f : α → δ} {values : List (String × α)}
    (reads : ∀ entry ∈ values, read (f entry.2) = pure entry.2) (dictionary : Dictionary α) :
    entries read dictionary (values.map fun entry => (entry.1, f entry.2))
      = pure (values.foldl (fun d entry => d.insert entry.1 entry.2) dictionary) := by
  induction values generalizing dictionary with
  | nil => rfl
  | cons entry rest ih =>
      obtain ⟨first, others⟩ := List.forall_mem_cons.mp reads
      rw [List.map_cons, entries, first, under_pure, List.foldl_cons, ← ih others]
      rfl

end Reading

namespace Json

theorem readable_outlined (members : List (String × Json)) :
    Outline.readable (outlinedMembers members)
      = (members.map fun member => (member.1, outlined member.2), true) := by
  induction members with
  | nil => rfl
  | cons member rest ih => simp [outlinedMembers, Outline.readable, ih]

theorem shape_object (members : List (String × Json)) :
    Data.shape (outlined (.object members))
      = .map (members.map fun member => (member.1, outlined member.2)) true := by
  have all := readable_outlined members
  simp only [outlined, Data.shape, Outline.shape, all]

theorem shape_array (items : List Json) :
    Data.shape (outlined (.array items)) = .sequence (items.map outlined) := by
  simp only [outlined, Data.shape, Outline.shape, outlinedItems_eq]

end Json

/-! ## Records -/

/-- What goes by a key of its own is found by it. -/
theorem find?_of_nodup {α : Type} {key : α → String} {xs : List α} {x : α}
    (once : (xs.map key).Nodup) (member : x ∈ xs) :
    xs.find? (fun other => key other == key x) = some x := by
  induction xs with
  | nil => cases member
  | cons first rest ih =>
      obtain ⟨fresh, once⟩ := List.nodup_cons.mp (List.map_cons ▸ once)
      rcases List.mem_cons.mp member with rfl | member
      · simp
      · have differ : key first ≠ key x := fun same => fresh (same ▸ List.mem_map_of_mem member)
        rw [List.find?_cons_of_neg (by simpa using differ), ih once member]

namespace Record

variable {δ σ α : Type}

/-- The entries are those of the fields, in their order, and take one draft to another. -/
inductive Fills : List (Field δ σ) → σ → List (String × δ) → σ → Prop where
  | nil {draft : σ} : Fills [] draft [] draft
  | cons {field : Field δ σ} {fields : List (Field δ σ)} {draft next last : σ} {value : δ}
      {entries : List (String × δ)} : field.read value draft = pure next →
      Fills fields next entries last →
      Fills (field :: fields) draft ((field.key, value) :: entries) last

theorem field_reads {read : δ → Reading α} {d : δ} {value : α} (reads : read d = pure value)
    (key : String) (put : σ → α → σ) (draft : σ) :
    (field key read put).read d draft = pure (put draft value) := by
  show (read d >>= fun value => pure (put draft value)) = _
  rw [reads]
  rfl

theorem optionalField_reads {read : δ → Reading α} {d : δ} {value : α} (reads : read d = pure value)
    (key : String) (put : σ → α → σ) (draft : σ) :
    (optionalField key read put).read d draft = pure (put draft value) :=
  field_reads reads key put draft

/-- What is left to read are the last fields, none of which was seen. -/
theorem readEntries_fills [Data δ] {record : Record δ σ}
    (once : (record.fields.map Field.key).Nodup)
    {fields : List (Field δ σ)} (left : fields <:+ record.fields) {draft last : σ}
    {entries : List (String × δ)} (fills : Fills fields draft entries last) {seen : List String}
    (fresh : ∀ field ∈ fields, field.key ∉ seen) :
    record.readEntries seen draft entries = pure last := by
  induction fills generalizing seen with
  | nil => rfl
  | @cons field fields draft next last value entries read others ih =>
      obtain ⟨own, fresh⟩ := List.forall_mem_cons.mp fresh
      have keys : ((field :: fields).map Field.key).Nodup := once.sublist (left.sublist.map _)
      have unseen : seen.contains field.key = false := by simpa using own
      rw [readEntries, find?_of_nodup once (left.subset List.mem_cons_self)]
      simp only [unseen, Bool.false_eq_true, if_false, read, Reading.under_pure]
      refine ih ((List.suffix_cons field fields).trans left) fun other member known => ?_
      rcases List.mem_cons.mp known with same | known
      · exact (List.nodup_cons.mp keys).1 (same ▸ List.mem_map_of_mem member)
      · exact fresh other member known

/-- A record is read from an object with its fields. -/
theorem read_object {record : Record Json.Outline σ} (once : (record.fields.map Field.key).Nodup)
    {start last : σ} {finish : σ → Except Mismatch α} {members : List (String × Json)}
    (fills : Fills record.fields start
      (members.map fun member => (member.1, outlined member.2)) last)
    {value : α} (finished : finish last = .ok value) :
    record.read start finish (outlined (.object members)) = pure value := by
  have entries := readEntries_fills once (List.suffix_refl _) fills fun _ _ => List.not_mem_nil
  rw [read, Json.shape_object]
  simp only [entries]
  show (liftM (finish last) : Reading α) = _
  rw [finished]
  rfl

end Record

/-! ## Manifests -/

namespace Manifest

open Record (field_reads optionalField_reads)

theorem text_outlined (text : String) : Reading.text (outlined (.string text)) = pure text := rfl

theorem readType_outlined (type : AssetType) :
    readType (outlined (.string type.text)) = pure type := by
  cases type <;> rfl

theorem readHash_outlined {hash : ContentHash} (marked : ContentHash.marked hash.text = true) :
    readHash (outlined (.string hash.text)) = pure hash := by
  have same : ContentHash.ofText hash.text = hash := by rw [ContentHash.ofText, if_pos marked]
  show (pure (ContentHash.ofText hash.text) : Reading ContentHash) = _
  rw [same]

theorem readAsset_outlined {asset : AssetRecord}
    (marked : ContentHash.marked asset.hash.text = true) :
    readAsset (outlined asset.json) = pure asset := by
  refine Record.read_object (by decide)
    (.cons (field_reads (text_outlined _) _ _ _) <|
      .cons (field_reads (readType_outlined _) _ _ _) <|
      .cons (field_reads (readHash_outlined marked) _ _ _) <|
      .cons (field_reads (text_outlined _) _ _ _) <|
      .cons (field_reads (text_outlined _) _ _ _) .nil) ?_
  rfl

theorem readStack_outlined {stack : StackRecord}
    (marked : ∀ asset ∈ stack.assets, ContentHash.marked asset.hash.text = true) :
    readStack (outlined stack.json) = pure stack := by
  have assets : Reading.sequence readAsset (outlined (.array (stack.assets.map AssetRecord.json)))
      = pure stack.assets := by
    rw [Reading.sequence, Json.shape_array, List.map_map]
    exact Reading.items_pure (fun asset member => readAsset_outlined (marked asset member)) 0
  refine Record.read_object (by decide)
    (.cons (field_reads (text_outlined _) _ _ _) <|
      .cons (field_reads (text_outlined _) _ _ _) <|
      .cons (field_reads (text_outlined _) _ _ _) <|
      .cons (optionalField_reads assets _ _ _) .nil) ?_
  rfl

/-- The records stand in order, and every hash has its mark. -/
structure Proper (manifest : Manifest) : Prop where
  sorted : Dictionary.Sorted manifest.records
  marked : ∀ entry ∈ manifest.records, ∀ asset ∈ entry.2.assets,
    ContentHash.marked asset.hash.text = true

theorem read_outlined {manifest : Manifest} (proper : manifest.Proper) :
    read (outlined manifest.json) = pure manifest := by
  have records : Reading.dictionary readStack
      (outlined (.object (manifest.records.mapValues StackRecord.json)))
      = pure manifest.records := by
    have each : ∀ entry ∈ manifest.records, readStack (outlined entry.2.json) = pure entry.2 :=
      fun entry member => readStack_outlined (proper.marked entry member)
    have entries :=
      Reading.entries_pure (f := fun stack : StackRecord => outlined stack.json) each []
    rw [show manifest.records.foldl (fun d entry => Dictionary.insert entry.1 entry.2 d) []
      = manifest.records from Dictionary.ofList_of_sorted proper.sorted] at entries
    rw [Reading.dictionary, Json.shape_object, Dictionary.mapValues, List.map_map]
    exact (congrArg (· >>= _) entries).trans rfl
  refine Record.read_object (by decide)
    (.cons (field_reads (text_outlined _) _ _ _) <| .cons (field_reads records _ _ _) .nil) ?_
  rfl

/-! ## Documents -/

theorem integral_json (manifest : Manifest) : manifest.json.Integral := by
  have assets : ∀ assets : List AssetRecord,
      Json.IntegralItems (assets.map AssetRecord.json) := by
    intro assets
    induction assets with
    | nil => trivial
    | cons asset rest ih => exact ⟨⟨trivial, trivial, trivial, trivial, trivial, trivial⟩, ih⟩
  have records : ∀ records : Dictionary StackRecord,
      Json.IntegralMembers (records.mapValues StackRecord.json) := by
    intro records
    induction records with
    | nil => trivial
    | cons entry rest ih =>
        exact ⟨⟨trivial, trivial, trivial, assets entry.2.assets, trivial⟩, ih⟩
  exact ⟨trivial, records manifest.records, trivial⟩

/-- A manifest that is written in lines is read back. -/
theorem ofText_pretty {manifest : Manifest} (proper : manifest.Proper) :
    ofText (manifest.json.pretty ++ "\n") = .ok manifest := by
  rw [ofText, Json.Outline.ofText_pretty manifest.integral_json]
  simp only [read_outlined proper]
  rfl

end Manifest
end StackSynth
