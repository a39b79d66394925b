import StackSynth.Proofs.Setting

/-!
# Showing — keys that have been set stay

What a statement sets is found in every document that comes later, and in the finished table.  A
key is found if the look-ups on its way lead to it.

* `Entries.Shows` — ways on which each key is looked up;
* `Entries.Changed.shows`, `Entries.Assigns.shows` — what a change at the end of a path leaves;
* `Document.Sound`, `Document.Shows` — what a document holds, and what is found in it;
* `Document.Shows.close`, `Shows.add`, `Sets.shows` — closing and adding keep what is found, and a
  statement adds what it sets;
* `PairSets.leads` — the same for the assignments of an inline table.
-/

namespace StackSynth
namespace Toml

/-! ## Entries -/

namespace Entries

/-- Every key of the way is looked up; in an array of tables the way goes through any row. -/
inductive Shows : Entries → List String → Prop
  | key {entries : Entries} {key : String} {item : Item} (found : entries.find? key = some item) :
      Shows entries [key]
  | value {entries : Entries} {key : String} {value : Toml} {rest : List String}
      (found : entries.find? key = some (.value value)) (leads : value.Leads rest) :
      Shows entries (key :: rest)
  | table {entries inner : Entries} {origin : Origin} {key : String} {rest : List String}
      (found : entries.find? key = some (.table origin inner)) (more : Shows inner rest) :
      Shows entries (key :: rest)
  | row {entries row : Entries} {rows : List Entries} {key : String} {i : Nat} {rest : List String}
      (found : entries.find? key = some (.rows rows)) (there : rows.reverse[i]? = some row)
      (more : Shows row rest) : Shows entries (key :: toString i :: rest)

variable {entries made inner last : Entries} {earlier : List Entries} {item : Item}
  {key : String} {keys rest own front path : List String}

theorem Shows.leads (shows : entries.Shows keys) : entries.Leads keys := by
  induction shows with
  | key found => exact leads_of_find? found (Or.inl rfl)
  | value found leads => exact leads_of_find? found (Or.inr leads)
  | table found _ ih => exact leads_of_find? found (Or.inr ih)
  | @row entries row rows key i rest found there _ ih =>
      refine leads_of_find? found (Or.inr ?_)
      exact leads_rows_iff.mpr ⟨i, row, rest, there, rfl, ih⟩

theorem not_shows_nil : ¬Shows [] keys := fun shows => not_leads_nil shows.leads

theorem Shows.exists_find? (shows : entries.Shows keys) :
    ∃ key rest item, keys = key :: rest ∧ entries.find? key = some item := by
  cases shows with
  | key found => exact ⟨_, _, _, rfl, found⟩
  | value found => exact ⟨_, _, _, rfl, found⟩
  | table found => exact ⟨_, _, _, rfl, found⟩
  | row found => exact ⟨_, _, _, rfl, found⟩

/-- Only what stands under the first key counts. -/
theorem Shows.congr (shows : entries.Shows (key :: rest))
    (same : made.find? key = entries.find? key) : made.Shows (key :: rest) := by
  cases shows with
  | key found => exact .key (same.trans found)
  | value found leads => exact .value (same.trans found) leads
  | table found more => exact .table (same.trans found) more
  | row found there more => exact .row (same.trans found) there more

theorem find?_remove_self (entries : Entries) (key : String) :
    (entries.remove key).find? key = none := by
  rw [find?, remove, List.find?_filter]
  simp

theorem find?_remove_of_ne {other : String} (different : other ≠ key) :
    (entries.remove key).find? other = entries.find? other := by
  rw [find?, find?, remove, List.find?_filter]
  congr 2
  funext entry
  by_cases same : entry.1 = other
  · simp [same, different]
  · simp [same]

theorem Shows.put_row {rows : List Entries} {row : Entries} (shows : entries.Shows keys)
    (found : entries.find? key = some (.rows rows)) :
    (entries.put key (.rows (row :: rows))).Shows keys := by
  have there := find?_put_self entries key (.rows (row :: rows))
  obtain ⟨other, rest, item', rfl, -⟩ := shows.exists_find?
  by_cases same : other = key
  · -- The new row has the highest index, so that the others are found under theirs.
    subst same
    cases shows with
    | key => exact .key there
    | value found' => cases found.symm.trans found'
    | table found' => cases found.symm.trans found'
    | row found' at_row more =>
        cases found.symm.trans found'
        exact .row there (row_cons_iff.mpr (Or.inl at_row)) more
  · exact shows.congr (find?_put_of_ne same)

theorem Shows.put_new (shows : entries.Shows keys) (absent : entries.find? key = none) :
    (entries.put key item).Shows keys := by
  obtain ⟨other, rest, item', rfl, found⟩ := shows.exists_find?
  have different : other ≠ key := by
    rintro rfl
    cases absent.symm.trans found
  exact shows.congr (find?_put_of_ne different)

theorem shows_child (shows : (entries.child key).Shows own) :
    entries.Shows (entries.turn key ++ own) := by
  unfold child at shows
  unfold turn
  split at shows
  · rename_i inner found
    rw [found]
    exact .table found shows
  · rename_i last earlier found
    rw [found]
    exact .row found (by simp) shows
  · exact absurd shows not_shows_nil

theorem shows_inside (shows : (entries.inside path).Shows own) :
    entries.Shows (entries.located path ++ own) := by
  induction path generalizing entries with
  | nil => exact shows
  | cons key path ih =>
      rw [located, List.append_assoc]
      exact shows_child (ih shows)

/-- A way through the item in whose place another one comes stays, or it goes through the entries
that change. -/
theorem Rewraps.shows (rewraps : Rewraps inner (entries.find? key) item)
    (shows : entries.Shows (key :: rest)) :
    (entries.put key item).Shows (key :: rest)
      ∨ ∃ own, key :: rest = entries.turn key ++ own ∧ (entries.child key).Shows own := by
  have there := find?_put_self entries key item
  cases shows with
  | key found => exact Or.inl (.key there)
  | value found =>
      rw [found] at rewraps
      cases rewraps
  | table found more =>
      refine Or.inr ⟨rest, ?_, ?_⟩
      · rw [Entries.turn, found]
        rfl
      · rw [Entries.child, found]
        exact more
  | @row _ row rows _ i own found at_row more =>
      rw [found] at rewraps
      cases rewraps with
      | row =>
          rcases row_cons_iff.mp at_row with before | ⟨rfl, rfl⟩
          · exact Or.inl (.row there (row_cons_iff.mpr (Or.inl before)) more)
          · refine Or.inr ⟨own, ?_, ?_⟩
            · rw [Entries.turn, found]
              rfl
            · rw [Entries.child, found]
              exact more

/-! ## Changes -/

/-- A change at the end of a path leaves the ways that do not go through that end. -/
theorem Changed.shows (changed : Changed path entries made) (shows : entries.Shows keys) :
    made.Shows keys
      ∨ ∃ own, keys = entries.located path ++ own ∧ (entries.inside path).Shows own := by
  induction changed generalizing keys with
  | here => exact Or.inr ⟨keys, rfl, shows⟩
  | @under entries inner item key path more rewraps ih =>
      obtain ⟨other, rest, item', rfl, found⟩ := shows.exists_find?
      by_cases same : other = key
      · subst same
        -- Only a way through the entries that change needs the hypothesis of the induction.
        rcases rewraps.shows shows with kept | ⟨own, through, below⟩
        · exact Or.inl kept
        rw [through]
        rcases ih below with kept | ⟨own', rfl, at_end⟩
        · left
          rw [← rewraps.child] at kept
          rw [← rewraps.turn]
          exact shows_child kept
        · refine Or.inr ⟨own', ?_, at_end⟩
          rw [Entries.located, List.append_assoc]
      · exact Or.inl (shows.congr (find?_put_of_ne same))

/-- What is found at the end of the path after the change. -/
theorem Changed.shows_end (changed : Changed path entries made)
    (shows : (made.inside path).Shows own) : made.Shows (entries.located path ++ own) := by
  rw [← changed.located List.prefix_rfl]
  exact shows_inside shows

/-- The keys of the path are found after the change. -/
theorem Changed.shows_path {last : String} (changed : Changed path entries made)
    (part : front ++ [last] <+: path) : made.Shows (entries.located front ++ [last]) := by
  induction changed generalizing front with
  | here => exact absurd (List.prefix_nil.mp part) (List.concat_ne_nil _ _)
  | under more rewraps ih =>
      cases front with
      | nil =>
          obtain ⟨rfl, -⟩ := List.cons_prefix_cons.mp part
          exact .key (find?_put_self _ _ _)
      | cons first front =>
          obtain ⟨rfl, inner_part⟩ := List.cons_prefix_cons.mp part
          have below := ih inner_part
          rw [← rewraps.child] at below
          rw [Entries.located, List.append_assoc, ← rewraps.turn]
          exact shows_child below

/-- The same with a key that stands at the end of the path. -/
theorem Changed.shows_part {last : String} (changed : Changed path entries made)
    (there : (made.inside path).find? key = some item)
    (part : front ++ [last] <+: path ++ [key]) : made.Shows (entries.located front ++ [last]) := by
  rcases List.prefix_concat_iff.mp part with whole | inner
  · obtain ⟨rfl, rfl⟩ := List.append_singleton_inj.mp whole
    exact changed.shows_end (.key there)
  · exact changed.shows_path inner

variable {value : Toml}

theorem Assigns.find? (assigns : Assigns path key value entries made) :
    (made.inside path).find? key = some (.value value) := by
  rw [assigns.put]
  exact find?_put_self _ _ _

/-- An assignment takes nothing away. -/
theorem Assigns.shows (assigns : Assigns path key value entries made)
    (shows : entries.Shows keys) : made.Shows keys := by
  rcases assigns.changed.shows shows with kept | ⟨own, rfl, below⟩
  · exact kept
  · refine assigns.changed.shows_end ?_
    rw [assigns.put]
    exact below.put_new assigns.absent

end Entries

/-! ## Documents -/

namespace Document

open Entries

/-- What the target says about the tables that are there already. -/
def Sound (doc : Document) : Prop :=
  match doc.target with
  | .root => doc.root = []
  | .table above key => (doc.root.inside above).find? key = none
  | .row above key => ∃ rows, (doc.root.inside above).find? key = some (.rows rows)

/-- The way leads to a key that stands in one of the tables or in the header of the last one. -/
inductive Shows (doc : Document) : List String → Prop
  | root {keys : List String} (shows : doc.root.Shows keys) : Shows doc keys
  | filling {keys : List String} (shows : doc.filling.Shows keys) : Shows doc (doc.place ++ keys)
  | opened {front : List String} {last : String} (part : front ++ [last] <+: doc.path) :
      Shows doc (doc.root.located front ++ [last])

variable {doc next : Document} {closed : Entries} {keys : List String}

/-- What is found in a document is found when it has been closed. -/
theorem Shows.close (shows : doc.Shows keys) (sound : doc.Sound) (done : doc.close = some closed) :
    closed.Shows keys := by
  obtain ⟨root, target, filling⟩ := doc
  cases target with
  | root =>
      cases done
      cases shows with
      | root shows =>
          -- While the root itself is being filled, there are no other tables.
          obtain rfl : root = [] := sound
          exact absurd shows not_shows_nil
      | filling shows => exact shows
      | opened part => exact absurd (List.prefix_nil.mp part) (List.concat_ne_nil _ _)
  | table above key =>
      obtain ⟨changed, put⟩ := close_table done
      have there : (closed.inside above).find? key = some (.table .written filling) :=
        put ▸ find?_put_self _ _ _
      cases shows with
      | root shows =>
          rcases changed.shows shows with kept | ⟨own, rfl, below⟩
          · exact kept
          · exact changed.shows_end (put ▸ below.put_new sound)
      | filling shows => simpa [place] using changed.shows_end (.table there shows)
      | opened part => exact changed.shows_part there part
  | row above key =>
      obtain ⟨changed, rows, found, put⟩ := close_row done
      have there : (closed.inside above).find? key = some (.rows (filling :: rows)) :=
        put ▸ find?_put_self _ _ _
      cases shows with
      | root shows =>
          rcases changed.shows shows with kept | ⟨own, rfl, below⟩
          · exact kept
          · exact changed.shows_end (put ▸ below.put_row found)
      | filling shows =>
          have last : (filling :: rows).reverse[rows.length]? = some filling :=
            row_cons_iff.mpr (Or.inr ⟨rfl, rfl⟩)
          simpa [place, found] using changed.shows_end (.row there last shows)
      | opened part => exact changed.shows_part there part

theorem Shows.add_header {above : List String} {key : String} (shows : doc.Shows keys)
    (sound : doc.Sound) (done : doc.add (.header above key) = some next) : next.Shows keys := by
  obtain ⟨closed, root, filling, closing, rfl, changed, found⟩ := Document.add_header done
  rcases changed.shows (shows.close sound closing) with kept | ⟨own, rfl, below⟩
  · exact .root kept
  rcases found with ⟨-, same, -⟩ | ⟨there, same⟩
  · exact .root (changed.shows_end (same ▸ below))
  obtain ⟨other, rest, item, rfl, -⟩ := below.exists_find?
  by_cases own : other = key
  · -- The table moves from its place into the one that is being filled.
    subst own
    rw [← changed.located List.prefix_rfl]
    cases below with
    | key => exact .opened List.prefix_rfl
    | value found' => cases there.symm.trans found'
    | table found' more =>
        cases there.symm.trans found'
        have moved : Shows ⟨root, .table above other, filling⟩
            (root.located above ++ [other] ++ rest) := .filling more
        rwa [List.append_assoc] at moved
    | row found' => cases there.symm.trans found'
  · refine .root (changed.shows_end ?_)
    rw [same]
    exact below.congr (find?_remove_of_ne own)

theorem Shows.add_row {above : List String} {key : String} (shows : doc.Shows keys)
    (sound : doc.Sound) (done : doc.add (.row above key) = some next) : next.Shows keys := by
  obtain ⟨closed, root, closing, rfl, changed, found⟩ := Document.add_row done
  rcases changed.shows (shows.close sound closing) with kept | ⟨own, rfl, below⟩
  · exact .root kept
  -- At the end of the path there is now an array of tables, if there was none.
  refine .root (changed.shows_end ?_)
  rcases found with ⟨absent, put⟩ | ⟨rows, -, same⟩
  · exact put ▸ below.put_new absent
  · exact same ▸ below

/-- A statement takes nothing away. -/
theorem Shows.add {st : Statement} (shows : doc.Shows keys) (sound : doc.Sound)
    (done : doc.add st = some next) : next.Shows keys := by
  cases st with
  | header above key => exact shows.add_header sound done
  | row above key => exact shows.add_row sound done
  | assign above key value =>
      obtain ⟨filling, rfl, assigns⟩ := Document.add_assign done
      cases shows with
      | root shows => exact .root shows
      | filling shows => exact .filling (assigns.shows shows)
      | opened part => exact .opened part

theorem Sound.add {st : Statement} (sound : doc.Sound) (done : doc.add st = some next) :
    next.Sound := by
  cases st with
  | header above key =>
      obtain ⟨closed, root, filling, closing, rfl, changed, found⟩ := add_header done
      rcases found with ⟨absent, same, -⟩ | ⟨-, same⟩
      · exact (congrArg (·.find? key) same).trans absent
      · exact (congrArg (·.find? key) same).trans (find?_remove_self _ _)
  | row above key =>
      obtain ⟨closed, root, closing, rfl, changed, found⟩ := add_row done
      rcases found with ⟨-, put⟩ | ⟨rows, found, same⟩
      · exact ⟨[], put ▸ find?_put_self _ _ _⟩
      · exact ⟨rows, same ▸ found⟩
  | assign above key value =>
      obtain ⟨filling, rfl, -⟩ := add_assign done
      exact sound

/-- What a statement sets is found. -/
theorem Sets.shows {st : Statement} (sets : next.Sets st keys) (done : doc.add st = some next) :
    next.Shows keys := by
  cases sets with
  | header part =>
      obtain ⟨closed, root, filling, -, rfl, -⟩ := add_header done
      exact .opened part
  | row part =>
      obtain ⟨closed, root, -, rfl, -⟩ := add_row done
      exact .opened part
  | part part =>
      obtain ⟨filling, rfl, assigns⟩ := add_assign done
      have same := assigns.changed.located (front_of_part part)
      exact .filling (same ▸ assigns.changed.shows_part assigns.find? part)
  | value leads =>
      obtain ⟨filling, rfl, assigns⟩ := add_assign done
      have same := assigns.changed.located List.prefix_rfl
      exact .filling (same ▸ assigns.changed.shows_end (.value assigns.find? leads))

/-- What is found in a document is found in the finished table. -/
theorem Shows.run {statements : List Statement} (shows : doc.Shows keys) (sound : doc.Sound)
    (done : statements.foldlM Document.add doc = some next) (closing : next.close = some closed) :
    closed.Shows keys := by
  induction statements generalizing doc with
  | nil =>
      cases done
      exact shows.close sound closing
  | cons st others ih =>
      rw [List.foldlM_cons] at done
      obtain ⟨middle, added, done⟩ := Option.bind_eq_some_iff.mp done
      exact ih (shows.add sound added) (sound.add added) done

end Document

/-! ## Inline tables -/

namespace Entries

variable {entries made : Entries} {keys : List String}

/-- What a list of assignments leaves, and what it sets. -/
theorem shows_assignments {pairs : List (List String × String × Toml)} (flat : entries.Flat)
    (done : pairs.foldlM
      (fun (entries : Entries) pair =>
        entries.modify true (Document.assigned (!pair.1.isEmpty) pair.2.1 pair.2.2) pair.1 .written)
      entries = some made)
    (found : entries.Shows keys ∨ ∃ pair ∈ pairs, PairSets pair keys) : made.Shows keys := by
  induction pairs generalizing entries with
  | nil =>
      cases done
      exact found.resolve_right fun ⟨_, impossible, _⟩ => nomatch impossible
  | cons pair rest ih =>
      rw [List.foldlM_cons] at done
      obtain ⟨next, made, done⟩ := Option.bind_eq_some_iff.mp done
      have first := assigns_of_modify made
      refine ih (flat.assign first) done ?_
      rcases found with old | ⟨other, among, sets⟩
      · exact Or.inl (first.shows old)
      rcases List.mem_cons.mp among with rfl | later
      · left
        rcases sets with ⟨front, last, part, rfl⟩ | ⟨own, leads, rfl⟩
        · have shown := first.changed.shows_part first.find? part
          rwa [flat front] at shown
        · have shown := first.changed.shows_end (.value first.find? leads)
          rwa [flat other.1] at shown
      · exact Or.inr ⟨other, later, sets⟩

end Entries

/-- What an assignment of an inline table sets is a key of it. -/
theorem PairSets.leads {pairs : List (List String × String × Toml)}
    {pair : List String × String × Toml} {v : Toml} {keys : List String} (sets : PairSets pair keys)
    (among : pair ∈ pairs) (made : inlineTable? pairs = some v) : v.Leads keys := by
  obtain ⟨entries, done, made⟩ := Option.bind_eq_some_iff.mp made
  cases made
  exact (Entries.shows_assignments Entries.flat_nil done (Or.inr ⟨pair, among, sets⟩)).leads

end Toml
end StackSynth
