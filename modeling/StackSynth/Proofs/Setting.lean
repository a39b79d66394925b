import StackSynth.Proofs.Leading

/-!
# Setting — which statement brings a key about

Every key of a finished document was brought about by one of its statements: by the keys of a
header, by the keys on the left of an assignment, or by the value on its right.

* `Entries.Assigns` — an assignment at the end of a path, and what it brings about;
* `Document.close_table`, `close_row`, `add_header`, `add_row`, `add_assign` — all that closing and
  adding do;
* `Document.place`, `Document.Sets` — where assignments go, and what a statement sets;
* `Document.Covered` — every key of a document is accounted for, which closing and adding keep;
* `PairSets`, `leads_inlineTable?` — the same for the assignments of an inline table.
-/

namespace StackSynth
namespace Toml

/-! ## Assignments -/

namespace Entries

variable {entries made : Entries} {viaDots : Bool} {above keys : List String} {key : String}
  {value : Toml} {origin : Origin}

/-- At the end of the path a key that was not there is assigned. -/
structure Assigns (above : List String) (key : String) (value : Toml) (entries made : Entries) :
    Prop where
  changed : Changed above entries made
  absent : (entries.inside above).find? key = none
  put : made.inside above = (entries.inside above).put key (.value value)

theorem assigns_of_modify
    (done : entries.modify true (Document.assigned viaDots key value) above origin = some made) :
    Assigns above key value entries made := by
  obtain ⟨changed, origin', assigned⟩ := changed_of_modify done
  unfold Document.assigned at assigned
  split at assigned
  · cases assigned
  · split at assigned
    · cases assigned
    · rename_i absent
      exact ⟨changed, absent, (Option.some.inj assigned).symm⟩

/-- An assignment brings about the keys of its path and those of its value. -/
theorem Assigns.leads (assigns : Assigns above key value entries made) (leads : made.Leads keys) :
    entries.Leads keys
      ∨ (∃ front last, front ++ [last] <+: above ++ [key]
        ∧ keys = entries.located front ++ [last])
      ∨ ∃ own, value.Leads own ∧ keys = entries.located above ++ key :: own :=
  assigns.changed.leads_put assigns.put leads

end Entries

/-! ## Documents -/

namespace Document

open Entries

theorem close_table {root filling closed : Entries} {above : List String} {key : String}
    (done : close ⟨root, .table above key, filling⟩ = some closed) :
    Changed above root closed
      ∧ closed.inside above = (root.inside above).put key (.table .written filling) := by
  obtain ⟨changed, origin, put⟩ := changed_of_modify done
  exact ⟨changed, (Option.some.inj put).symm⟩

theorem close_row {root filling closed : Entries} {above : List String} {key : String}
    (done : close ⟨root, .row above key, filling⟩ = some closed) :
    Changed above root closed ∧ ∃ rows, (root.inside above).find? key = some (.rows rows)
      ∧ closed.inside above = (root.inside above).put key (.rows (filling :: rows)) := by
  obtain ⟨changed, origin, put⟩ := changed_of_modify done
  dsimp only at put
  split at put
  · rename_i rows found
    exact ⟨changed, rows, found, (Option.some.inj put).symm⟩
  · cases put

/-- What a header finds is what stands at the end of its path. -/
theorem found?_eq {root filling : Entries} {above : List String} {key : String}
    (done : found? root above key = some filling) :
    ∃ rest, openTable key (root.inside above) = some (rest, filling) := by
  induction above generalizing root with
  | nil =>
      rw [found?] at done
      obtain ⟨⟨rest, inner⟩, opened, rfl⟩ := Option.map_eq_some_iff.mp done
      exact ⟨rest, opened⟩
  | cons next above ih =>
      rw [inside, child]
      rw [found?] at done
      split at done
      · rename_i absent
        cases done
        rw [absent, inside_nil]
        exact ⟨[], rfl⟩
      · cases done
      · rename_i found
        rw [found]
        exact ih done
      · cases done
      · rename_i found
        rw [found]
        exact ih done

variable {doc next : Document}

/-- The header of a table finds nothing under its path, or an implied table, which it takes out. -/
theorem add_header {above : List String} {key : String}
    (done : doc.add (.header above key) = some next) :
    ∃ closed root filling, doc.close = some closed ∧ next = ⟨root, .table above key, filling⟩
      ∧ Changed above closed root
      ∧ (((closed.inside above).find? key = none ∧ root.inside above = closed.inside above
          ∧ filling = [])
        ∨ (closed.inside above).find? key = some (.table .implied filling)
          ∧ root.inside above = (closed.inside above).remove key) := by
  obtain ⟨closed, closing, done⟩ := Option.bind_eq_some_iff.mp done
  obtain ⟨filling, found, done⟩ := Option.bind_eq_some_iff.mp done
  obtain ⟨root, made, done⟩ := Option.bind_eq_some_iff.mp done
  cases done
  obtain ⟨rest, opened⟩ := found?_eq found
  obtain ⟨changed, origin, left⟩ := changed_of_modify made
  rw [opened] at left
  obtain rfl := Option.some.inj left
  refine ⟨closed, root, filling, closing, rfl, changed, ?_⟩
  unfold openTable at opened
  split at opened
  · rename_i absent
    obtain ⟨same, rfl⟩ := Prod.mk.inj (Option.some.inj opened)
    exact Or.inl ⟨absent, same.symm, rfl⟩
  · rename_i implied
    obtain ⟨same, rfl⟩ := Prod.mk.inj (Option.some.inj opened)
    exact Or.inr ⟨implied, same.symm⟩
  · cases opened

/-- The header of a row finds nothing under its path, or other rows. -/
theorem add_row {above : List String} {key : String}
    (done : doc.add (.row above key) = some next) :
    ∃ closed root, doc.close = some closed ∧ next = ⟨root, .row above key, []⟩
      ∧ Changed above closed root
      ∧ (((closed.inside above).find? key = none
          ∧ root.inside above = (closed.inside above).put key (.rows []))
        ∨ ∃ rows, (closed.inside above).find? key = some (.rows rows)
          ∧ root.inside above = closed.inside above) := by
  obtain ⟨closed, closing, done⟩ := Option.bind_eq_some_iff.mp done
  obtain ⟨root, made, done⟩ := Option.bind_eq_some_iff.mp done
  cases done
  obtain ⟨changed, origin, left⟩ := changed_of_modify made
  refine ⟨closed, root, closing, rfl, changed, ?_⟩
  split at left
  · rename_i absent
    exact Or.inl ⟨absent, (Option.some.inj left).symm⟩
  · rename_i rows found
    exact Or.inr ⟨rows, found, (Option.some.inj left).symm⟩
  · cases left

theorem add_assign {above : List String} {key : String} {value : Toml}
    (done : doc.add (.assign above key value) = some next) :
    ∃ filling, next = { doc with filling := filling }
      ∧ Assigns above key value doc.filling filling := by
  obtain ⟨filling, made, done⟩ := Option.bind_eq_some_iff.mp done
  cases done
  exact ⟨filling, rfl, assigns_of_modify made⟩

/-! ## What statements bring about -/

/-- The way to the table that is being filled. -/
def place (doc : Document) : List String :=
  match doc.target with
  | .root => []
  | .table above key => doc.root.located above ++ [key]
  | .row above key =>
      match (doc.root.inside above).find? key with
      | some (.rows rows) => doc.root.located above ++ [key, toString rows.length]
      | _ => doc.root.located above ++ [key]

/-- The keys that a statement brings about, in the document to which it has been added. -/
inductive Sets (doc : Document) : Statement → List String → Prop
  | header {above front : List String} {key last : String}
      (part : front ++ [last] <+: above ++ [key]) :
      Sets doc (.header above key) (doc.root.located front ++ [last])
  | row {above front : List String} {key last : String}
      (part : front ++ [last] <+: above ++ [key]) :
      Sets doc (.row above key) (doc.root.located front ++ [last])
  | part {above front : List String} {key last : String} {value : Toml}
      (part : front ++ [last] <+: above ++ [key]) :
      Sets doc (.assign above key value) (doc.place ++ (doc.filling.located front ++ [last]))
  | value {above own : List String} {key : String} {value : Toml} (leads : value.Leads own) :
      Sets doc (.assign above key value) (doc.place ++ (doc.filling.located above ++ key :: own))

/-- The keys of the header under which the document is being filled. -/
def path (doc : Document) : List String :=
  match doc.target with
  | .root => []
  | .table above key => above ++ [key]
  | .row above key => above ++ [key]

/-- Every key of the document has the property. -/
structure Covered (P : List String → Prop) (doc : Document) : Prop where
  root : ∀ keys, doc.root.Leads keys → P keys
  filling : ∀ keys, doc.filling.Leads keys → P (doc.place ++ keys)
  opened : ∀ front last, front ++ [last] <+: doc.path → P (doc.root.located front ++ [last])

variable {P Q : List String → Prop} {closed : Entries}

theorem covered_start (P : List String → Prop) : Covered P start where
  root _ leads := absurd leads not_leads_nil
  filling _ leads := absurd leads not_leads_nil
  opened _ _ part := absurd (List.prefix_nil.mp part) (List.concat_ne_nil _ _)

theorem Covered.mono (covered : Covered P doc) (weaker : ∀ keys, P keys → Q keys) :
    Covered Q doc where
  root keys leads := weaker _ (covered.root keys leads)
  filling keys leads := weaker _ (covered.filling keys leads)
  opened front last part := weaker _ (covered.opened front last part)

/-- The keys of a document that has been closed. -/
theorem Covered.close (covered : Covered P doc) (done : doc.close = some closed)
    {keys : List String} (leads : closed.Leads keys) : P keys := by
  obtain ⟨root, target, filling⟩ := doc
  cases target with
  | root =>
      cases done
      exact covered.filling keys leads
  | table above key =>
      -- The entries that were being filled become a table at the end of their path.
      obtain ⟨changed, put⟩ := close_table done
      rcases changed.leads_put put leads with old | ⟨front, last, part, rfl⟩ | ⟨rest, into, rfl⟩
      · exact covered.root keys old
      · exact covered.opened front last part
      · simpa [place] using covered.filling rest into
  | row above key =>
      -- They become one more row, and the rows before it keep their indices.
      obtain ⟨changed, rows, found, put⟩ := close_row done
      rcases changed.leads_put put leads with old | ⟨front, last, part, rfl⟩ | ⟨rest, into, rfl⟩
      · exact covered.root keys old
      · exact covered.opened front last part
      rcases leads_rows_cons_iff.mp into with before | ⟨rest, rfl, through⟩
      · exact covered.root _ (leads_inside (leads_of_find? found (Or.inr before)))
      · simpa [place, found] using covered.filling rest through

theorem front_of_part {above front : List String} {key last : String}
    (part : front ++ [last] <+: above ++ [key]) : front <+: above := by
  have short : front.length ≤ above.length := by simpa using part.length_le
  exact List.prefix_of_prefix_length_le ((List.prefix_append _ _).trans part)
    (List.prefix_append _ _) short

theorem Covered.add_header {above : List String} {key : String} (covered : Covered P doc)
    (done : doc.add (.header above key) = some next)
    (sets : ∀ keys, next.Sets (.header above key) keys → P keys) : Covered P next := by
  obtain ⟨closed, root, filling, closing, rfl, changed, found⟩ := Document.add_header done
  refine ⟨fun keys leads => ?_, fun keys leads => ?_, fun front last part => ?_⟩
  · rcases changed.leads leads with old | ⟨front, last, part, rfl⟩ | ⟨own, rfl, at_end⟩
    · exact covered.close closing old
    · rw [← changed.located ((List.prefix_append _ _).trans part)]
      exact sets _ (.header (part.trans (List.prefix_append _ _)))
    · refine covered.close closing (leads_inside ?_)
      rcases found with ⟨-, same, -⟩ | ⟨-, same⟩
      · exact same ▸ at_end
      · exact leads_remove (same ▸ at_end)
  · rcases found with ⟨-, -, rfl⟩ | ⟨implied, -⟩
    · exact absurd leads not_leads_nil
    · -- The implied table is now filled, but the way to its keys is still the same.
      have old := covered.close closing (leads_inside (leads_of_find? implied (Or.inr leads)))
      simpa [place, changed.located List.prefix_rfl] using old
  · exact sets _ (.header part)

theorem Covered.add_row {above : List String} {key : String} (covered : Covered P doc)
    (done : doc.add (.row above key) = some next)
    (sets : ∀ keys, next.Sets (.row above key) keys → P keys) : Covered P next := by
  obtain ⟨closed, root, closing, rfl, changed, found⟩ := Document.add_row done
  refine ⟨fun keys leads => ?_, fun _ leads => absurd leads not_leads_nil,
    fun front last part => sets _ (.row part)⟩
  -- At the end of the path there is an array of tables, which has no more rows than before.
  rcases found with ⟨-, put⟩ | ⟨rows, -, same⟩
  · rcases changed.leads_put put leads with old | ⟨front, last, part, rfl⟩ | ⟨rest, into, -⟩
    · exact covered.close closing old
    · rw [← changed.located (front_of_part part)]
      exact sets _ (.row part)
    · exact absurd into not_leads_noRows
  · rcases changed.leads leads with old | ⟨front, last, part, rfl⟩ | ⟨own, rfl, at_end⟩
    · exact covered.close closing old
    · rw [← changed.located ((List.prefix_append _ _).trans part)]
      exact sets _ (.row (part.trans (List.prefix_append _ _)))
    · exact covered.close closing (leads_inside (same ▸ at_end))

theorem Covered.add_assign {above : List String} {key : String} {value : Toml}
    (covered : Covered P doc) (done : doc.add (.assign above key value) = some next)
    (sets : ∀ keys, next.Sets (.assign above key value) keys → P keys) : Covered P next := by
  obtain ⟨filling, rfl, assigns⟩ := Document.add_assign done
  -- Only the table that is being filled changes.
  refine ⟨covered.root, fun keys leads => ?_, covered.opened⟩
  rcases assigns.leads leads with old | ⟨front, last, part, rfl⟩ | ⟨own, into, rfl⟩
  · exact covered.filling keys old
  · rw [← assigns.changed.located (front_of_part part)]
    exact sets _ (.part part)
  · rw [← assigns.changed.located List.prefix_rfl]
    exact sets _ (.value into)

/-- What is there after a statement was there before, or the statement sets it. -/
theorem Covered.add {st : Statement} (covered : Covered P doc) (done : doc.add st = some next)
    (sets : ∀ keys, next.Sets st keys → P keys) : Covered P next := by
  cases st with
  | header above key => exact covered.add_header done sets
  | row above key => exact covered.add_row done sets
  | assign above key value => exact covered.add_assign done sets

end Document

/-! ## Inline tables -/

/-- The keys that an assignment of an inline table brings about. -/
def PairSets (pair : List String × String × Toml) (keys : List String) : Prop :=
  (∃ front last, front ++ [last] <+: pair.1 ++ [pair.2.1] ∧ keys = front ++ [last])
    ∨ ∃ own, pair.2.2.Leads own ∧ keys = pair.1 ++ pair.2.1 :: own

namespace Entries

/-- There are no arrays of tables on any path. -/
def Flat (entries : Entries) : Prop :=
  ∀ path, entries.located path = path

theorem flat_nil : Flat [] := by
  intro path
  induction path with
  | nil => rfl
  | cons key path ih =>
      rw [located, turn_nil, child_nil, ih]
      rfl

variable {entries made : Entries} {key : String}

theorem Flat.turn (flat : entries.Flat) (key : String) : entries.turn key = [key] := by
  simpa [located] using flat [key]

theorem Flat.child (flat : entries.Flat) (key : String) : (entries.child key).Flat := by
  intro path
  simpa [located, flat.turn key] using flat (key :: path)

theorem flat_put {item : Item} (flat : entries.Flat)
    (turn : (entries.put key item).turn key = [key])
    (child : ((entries.put key item).child key).Flat) : (entries.put key item).Flat := by
  intro path
  cases path with
  | nil => rfl
  | cons other path =>
      rw [located]
      by_cases same : other = key
      · rw [same, turn, child]
        rfl
      · have there : (entries.put key item).find? other = entries.find? other :=
          find?_put_of_ne same
        rw [Entries.turn, Entries.child, there]
        exact flat (other :: path)

theorem Flat.changed {above : List String} (flat : entries.Flat)
    (changed : Changed above entries made) (at_end : (made.inside above).Flat) : made.Flat := by
  induction changed with
  | here => exact at_end
  | @under entries inner item key path more rewraps ih =>
      rw [inside, rewraps.child] at at_end
      refine flat_put flat ?_ ?_
      · rw [rewraps.turn, flat.turn key]
      · rw [rewraps.child]
        exact ih (flat.child key) at_end

theorem Flat.inside {path : List String} (flat : entries.Flat) : (entries.inside path).Flat := by
  induction path generalizing entries with
  | nil => exact flat
  | cons key path ih => exact ih (flat.child key)

/-- Assignments bring about no arrays of tables. -/
theorem Flat.assign {value : Toml} {above : List String} (flat : entries.Flat)
    (assigns : Assigns above key value entries made) : made.Flat := by
  refine flat.changed assigns.changed ?_
  rw [assigns.put]
  refine flat_put flat.inside ?_ ?_
  · rw [Entries.turn, find?_put_self]
  · rw [Entries.child, find?_put_self]
    exact flat_nil

/-- What a list of assignments brings about. -/
theorem leads_assignments {pairs : List (List String × String × Toml)} {keys : List String}
    (flat : entries.Flat)
    (done : pairs.foldlM
      (fun (entries : Entries) pair =>
        entries.modify true (Document.assigned (!pair.1.isEmpty) pair.2.1 pair.2.2) pair.1 .written)
      entries = some made)
    (leads : made.Leads keys) :
    entries.Leads keys ∨ ∃ pair ∈ pairs, PairSets pair keys := by
  -- Entries that are flat stay so, and no index comes into the ways.
  induction pairs generalizing entries with
  | nil =>
      cases done
      exact Or.inl leads
  | cons pair rest ih =>
      rw [List.foldlM_cons] at done
      obtain ⟨next, made, done⟩ := Option.bind_eq_some_iff.mp done
      have first := assigns_of_modify made
      rcases ih (flat.assign first) done with old | ⟨later, among, sets⟩
      · rcases first.leads old with old | ⟨front, last, part, rfl⟩ | ⟨own, into, rfl⟩
        · exact Or.inl old
        · rw [flat front]
          exact Or.inr ⟨pair, List.mem_cons_self, Or.inl ⟨front, last, part, rfl⟩⟩
        · rw [flat pair.1]
          exact Or.inr ⟨pair, List.mem_cons_self, Or.inr ⟨own, into, rfl⟩⟩
      · exact Or.inr ⟨later, List.mem_cons_of_mem _ among, sets⟩

end Entries

/-- A key of an inline table is brought about by one of its assignments. -/
theorem leads_inlineTable? {pairs : List (List String × String × Toml)} {v : Toml}
    {keys : List String} (made : inlineTable? pairs = some v) (leads : v.Leads keys) :
    ∃ pair ∈ pairs, PairSets pair keys := by
  obtain ⟨entries, done, made⟩ := Option.bind_eq_some_iff.mp made
  cases made
  rcases Entries.leads_assignments Entries.flat_nil done leads with impossible | sets
  · exact absurd impossible Entries.not_leads_nil
  · exact sets

end Toml
end StackSynth
