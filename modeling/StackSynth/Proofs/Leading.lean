import StackSynth.Proofs.Noting

/-!
# Leading — ways to the keys of a table

A way into a file goes through its tables by their keys and through its arrays by their indices.
The keys of a header and of an assignment say nothing of indices: in an array of tables they mean
its last row.  `Entries.located` puts the index in.

* `Toml.Leads`, `Toml.Stamped` — ways to the keys of tables, and to what stands for a date-time;
* `Entries.Leads` — the same into the table that has the entries;
* `Entries.located`, `Entries.inside` — the way that a path means, and the entries at its end;
* `Entries.Changed` — a change at the end of a path, and what it can bring about.
-/

namespace StackSynth
namespace Toml

open Data

/-! ## Ways to keys -/

/-- The last of the keys is one of a table to which the others lead. -/
inductive Leads (d : Toml) : List String → Prop
  | key {front : List String} {entries : List (String × Toml)} {key : String} {value : Toml}
      (reached : At d front (.table entries)) (among : (key, value) ∈ entries) :
      Leads d (front ++ [key])

/-- The others lead to a date-time, which is seen as a table with one key. -/
inductive Stamped (d : Toml) : List String → Prop
  | key {front : List String} {time : DateTime} (reached : At d front (.dateTime time)) :
      Stamped d (front ++ [dateTimeKey])

theorem leads_or_stamped {d : Toml} {keys : List String} (holds : Holds d keys) :
    d.Leads keys ∨ d.Stamped keys := by
  cases holds with
  | @key e value front entries closed key reached map among =>
      cases e with
      | table entries' =>
          cases map
          exact Or.inl (.key reached among)
      | dateTime time =>
          cases map
          obtain ⟨rfl, rfl⟩ := Prod.mk.inj (List.mem_singleton.mp among)
          exact Or.inr (.key reached)
      | _ => cases map

theorem leads_table_iff {entries : List (String × Toml)} {keys : List String} :
    (table entries).Leads keys ↔ ∃ key value rest, (key, value) ∈ entries ∧ keys = key :: rest
      ∧ (rest = [] ∨ value.Leads rest) := by
  constructor
  · intro leads
    cases leads with
    | key reached among =>
        cases reached with
        | here => exact ⟨_, _, [], among, rfl, Or.inl rfl⟩
        | under map own more =>
            cases map
            exact ⟨_, _, _, own, rfl, Or.inr (.key more among)⟩
        | item sequence => cases sequence
  · rintro ⟨key, value, rest, among, rfl, rfl | leads⟩
    · exact Leads.key (.here _) among
    · cases leads with
      | key reached last => exact Leads.key (.under rfl among reached) last

theorem leads_sequence_iff {d : Toml} {items : List Toml} {keys : List String}
    (sequence : Data.shape d = .sequence items) :
    d.Leads keys ↔ ∃ (i : Nat) (x : Toml) (rest : List String), items[i]? = some x
      ∧ keys = toString i :: rest ∧ x.Leads rest := by
  constructor
  · intro leads
    cases leads with
    | key reached among =>
        cases reached with
        | here => cases sequence
        | under map => cases map.symm.trans sequence
        | item same found more =>
            cases same.symm.trans sequence
            exact ⟨_, _, _, found, rfl, .key more among⟩
  · rintro ⟨i, x, rest, found, rfl, leads⟩
    cases leads with
    | key reached last => exact Leads.key (.item sequence found reached) last

/-- Nothing leads into a scalar. -/
theorem Leads.nested {d : Toml} {keys : List String} (leads : d.Leads keys) :
    (∃ items, d = .array items) ∨ (∃ items, d = .tables items) ∨ ∃ entries, d = .table entries := by
  cases leads with
  | key reached among =>
      cases d with
      | array items => exact Or.inl ⟨items, rfl⟩
      | tables items => exact Or.inr (Or.inl ⟨items, rfl⟩)
      | table entries => exact Or.inr (Or.inr ⟨entries, rfl⟩)
      | dateTime time =>
          -- A date-time has one key, and what stands under it is a text.
          cases reached with
          | under map own more =>
              cases map
              obtain ⟨rfl, rfl⟩ := Prod.mk.inj (List.mem_singleton.mp own)
              cases more with
              | under map => cases map
              | item sequence => cases sequence
          | item sequence => cases sequence
      | _ =>
          cases reached with
          | under map => cases map
          | item sequence => cases sequence

/-! ## Ways through entries -/

theorem entriesToml_eq (entries : Entries) :
    entriesToml entries = entries.map fun entry => (entry.1, entry.2.toml) := by
  induction entries with
  | nil => rfl
  | cons entry rest ih =>
      obtain ⟨key, item⟩ := entry
      rw [entriesToml, ih, List.map_cons]

theorem rowsToml_eq (rows : List Entries) :
    rowsToml rows = rows.map fun row => .table (entriesToml row) := by
  induction rows with
  | nil => rfl
  | cons row rest ih => rw [rowsToml, ih, List.map_cons]

namespace Entries

/-- A way into the table that has the entries. -/
def Leads (entries : Entries) (keys : List String) : Prop :=
  (Toml.table (entriesToml entries)).Leads keys

variable {entries made inner last : Entries} {earlier : List Entries} {item : Item}
  {key : String} {keys rest own front path : List String}

theorem leads_iff : entries.Leads keys ↔ ∃ key item rest, (key, item) ∈ entries
    ∧ keys = key :: rest ∧ (rest = [] ∨ item.toml.Leads rest) := by
  rw [Leads, leads_table_iff]
  constructor
  · rintro ⟨key, value, rest, among, rfl, ends⟩
    rw [entriesToml_eq, List.mem_map] at among
    obtain ⟨⟨key', item⟩, among, same⟩ := among
    obtain ⟨rfl, rfl⟩ := Prod.mk.inj same
    exact ⟨_, item, rest, among, rfl, ends⟩
  · rintro ⟨key, item, rest, among, rfl, ends⟩
    refine ⟨key, item.toml, rest, ?_, rfl, ends⟩
    rw [entriesToml_eq]
    exact List.mem_map_of_mem among

theorem not_leads_nil : ¬Leads [] keys := by
  intro leads
  obtain ⟨key, item, rest, among, -⟩ := leads_iff.mp leads
  cases among

theorem leads_rows_iff {rows : List Entries} : (Item.rows rows).toml.Leads keys ↔
    ∃ (i : Nat) (row : Entries) (rest : List String), rows.reverse[i]? = some row
      ∧ keys = toString i :: rest ∧ row.Leads rest := by
  have shape : Data.shape (Item.rows rows).toml
      = .sequence (rows.reverse.map fun row => .table (entriesToml row)) := by
    rw [Item.toml, rowsToml_eq, ← List.map_reverse]
    rfl
  rw [leads_sequence_iff shape]
  simp only [List.getElem?_map, Option.map_eq_some_iff]
  constructor
  · rintro ⟨i, x, rest, ⟨row, there, rfl⟩, same, leads⟩
    exact ⟨i, row, rest, there, same, leads⟩
  · rintro ⟨i, row, rest, there, same, leads⟩
    exact ⟨i, _, rest, ⟨row, there, rfl⟩, same, leads⟩

/-- The rows are kept with the last one first. -/
theorem row_cons_iff {row : Entries} {i : Nat} : (last :: earlier).reverse[i]? = some row ↔
    earlier.reverse[i]? = some row ∨ i = earlier.length ∧ row = last := by
  rw [List.reverse_cons, List.getElem?_append, List.length_reverse]
  split
  · rename_i before
    exact ⟨Or.inl, fun found => found.resolve_right fun at_end => Nat.ne_of_lt before at_end.1⟩
  · rename_i behind
    have none : earlier.reverse[i]? = none := by simpa using behind
    rw [none, List.getElem?_singleton]
    constructor
    · intro found
      split at found
      · rename_i zero
        cases found
        exact Or.inr ⟨by omega, rfl⟩
      · cases found
    · rintro (impossible | ⟨rfl, rfl⟩)
      · cases impossible
      · simp

/-- Into rows a way goes through the last of them or through one before it. -/
theorem leads_rows_cons_iff : (Item.rows (last :: earlier)).toml.Leads keys ↔
    (Item.rows earlier).toml.Leads keys
      ∨ ∃ rest, keys = toString earlier.length :: rest ∧ last.Leads rest := by
  simp only [leads_rows_iff, row_cons_iff]
  constructor
  · rintro ⟨i, row, rest, before | ⟨rfl, rfl⟩, rfl, leads⟩
    · exact Or.inl ⟨i, row, rest, before, rfl, leads⟩
    · exact Or.inr ⟨rest, rfl, leads⟩
  · rintro (⟨i, row, rest, before, rfl, leads⟩ | ⟨rest, rfl, leads⟩)
    · exact ⟨i, row, rest, Or.inl before, rfl, leads⟩
    · exact ⟨_, last, rest, Or.inr ⟨rfl, rfl⟩, rfl, leads⟩

/-- There is no way into an array of no tables. -/
theorem not_leads_noRows : ¬(Item.rows []).toml.Leads keys := by
  intro leads
  obtain ⟨i, row, rest, there, -⟩ := leads_rows_iff.mp leads
  cases there

theorem key_of_find? {entry : String × Item}
    (found : List.find? (fun entry => entry.1 == key) entries = some entry) : entry.1 = key := by
  simpa using List.find?_some found

theorem mem_of_find? (found : entries.find? key = some item) : (key, item) ∈ entries := by
  obtain ⟨⟨key', item'⟩, known, rfl⟩ := Option.map_eq_some_iff.mp found
  obtain rfl := key_of_find? known
  exact List.mem_of_find?_eq_some known

theorem leads_of_find? (found : entries.find? key = some item)
    (ends : rest = [] ∨ item.toml.Leads rest) : entries.Leads (key :: rest) :=
  leads_iff.mpr ⟨key, item, rest, mem_of_find? found, rfl, ends⟩

theorem mem_put {entry : String × Item} (among : entry ∈ entries.put key item) :
    entry = (key, item) ∨ entry ∈ entries := by
  unfold put at among
  split at among
  · obtain ⟨old, known, rfl⟩ := List.mem_map.mp among
    split
    · exact Or.inl rfl
    · exact Or.inr known
  · exact (List.mem_append.mp among).symm.imp_left List.mem_singleton.mp

theorem leads_put (leads : (entries.put key item).Leads keys) :
    entries.Leads keys ∨ ∃ rest, keys = key :: rest ∧ (rest = [] ∨ item.toml.Leads rest) := by
  obtain ⟨key', item', rest, among, rfl, ends⟩ := leads_iff.mp leads
  rcases mem_put among with same | known
  · obtain ⟨rfl, rfl⟩ := Prod.mk.inj same
    exact Or.inr ⟨rest, rfl, ends⟩
  · exact Or.inl (leads_iff.mpr ⟨key', item', rest, known, rfl, ends⟩)

theorem leads_remove (leads : (entries.remove key).Leads keys) : entries.Leads keys := by
  obtain ⟨key', item, rest, among, rfl, ends⟩ := leads_iff.mp leads
  exact leads_iff.mpr ⟨key', item, rest, (List.mem_filter.mp among).1, rfl, ends⟩

/-- Replacing an item leaves the keys where they are. -/
theorem find?_replaced (entries : Entries) (key other : String) (item : Item) :
    List.find? (fun entry => entry.1 == other)
        (entries.map fun entry => if entry.1 == key then (key, item) else entry)
      = (List.find? (fun entry => entry.1 == other) entries).map
          fun entry => if entry.1 == key then (key, item) else entry := by
  rw [List.find?_map]
  congr 2
  funext entry
  by_cases same : entry.1 = key
  · simp [same]
  · simp [same]

theorem find?_put_self (entries : Entries) (key : String) (item : Item) :
    (entries.put key item).find? key = some item := by
  unfold put find?
  -- An item under the key is replaced in its place, and a new one comes last.
  split
  · rename_i there
    rw [find?_replaced]
    cases found : List.find? (fun entry => entry.1 == key) entries with
    | none =>
        rw [List.any_eq_true] at there
        obtain ⟨entry, among, same⟩ := there
        exact absurd same (List.find?_eq_none.mp found entry among)
    | some entry =>
        simp [key_of_find? found]
  · rename_i missing
    have none : List.find? (fun entry => entry.1 == key) entries = none :=
      List.find?_eq_none.mpr fun entry among same =>
        missing (List.any_eq_true.mpr ⟨entry, among, same⟩)
    rw [List.find?_append, none]
    simp

theorem find?_put_of_ne {other : String} (different : other ≠ key) :
    (entries.put key item).find? other = entries.find? other := by
  unfold put find?
  split
  · rw [find?_replaced]
    cases found : List.find? (fun entry => entry.1 == other) entries with
    | none => rfl
    | some entry =>
        simp [key_of_find? found, different]
  · rw [List.find?_append, List.find?_cons_of_neg (by simpa using different.symm)]
    simp

/-! ## Paths of statements -/

/-- The key, with the index of the last row if an array of tables stands under it. -/
def turn (key : String) (entries : Entries) : List String :=
  match entries.find? key with
  | some (.rows (_ :: earlier)) => [key, toString earlier.length]
  | _ => [key]

/-- The entries under a key, which are those of the last row in an array of tables. -/
def child (key : String) (entries : Entries) : Entries :=
  match entries.find? key with
  | some (.table _ inner) => inner
  | some (.rows (last :: _)) => last
  | _ => []

/-- The way that is meant by a path. -/
def located : (path : List String) → Entries → List String
  | [], _ => []
  | key :: path, entries => entries.turn key ++ located path (entries.child key)

/-- The entries at the end of a path. -/
def inside : (path : List String) → Entries → Entries
  | [], entries => entries
  | key :: path, entries => inside path (entries.child key)

theorem turn_nil (key : String) : turn key [] = [key] := rfl

theorem child_nil (key : String) : child key [] = [] := rfl

theorem inside_nil (path : List String) : inside path [] = [] := by
  induction path with
  | nil => rfl
  | cons key path ih => rw [inside, child_nil, ih]

theorem leads_child (leads : (entries.child key).Leads own) :
    entries.Leads (entries.turn key ++ own) := by
  unfold child at leads
  unfold turn
  split at leads
  · rename_i inner found
    rw [found]
    exact leads_of_find? found (Or.inr leads)
  · rename_i last earlier found
    rw [found]
    exact leads_of_find? found (Or.inr (leads_rows_cons_iff.mpr (Or.inr ⟨own, rfl, leads⟩)))
  · exact absurd leads not_leads_nil

theorem leads_inside (leads : (entries.inside path).Leads own) :
    entries.Leads (entries.located path ++ own) := by
  induction path generalizing entries with
  | nil => exact leads
  | cons key path ih =>
      rw [located, List.append_assoc]
      exact leads_child (ih leads)

variable {byDots : Bool} {change : Origin → Entries → Option Entries} {origin : Origin}

/-- How an item takes the place of another, or of none, when the entries below it change. -/
inductive Rewraps (inner : Entries) : Option Item → Item → Prop
  | new {origin : Origin} : Rewraps inner none (.table origin inner)
  | table {origin : Origin} {old : Entries} :
      Rewraps inner (some (.table origin old)) (.table origin inner)
  | row {last : Entries} {earlier : List Entries} :
      Rewraps inner (some (.rows (last :: earlier))) (.rows (inner :: earlier))

/-- A change below a key is one of the entries under it. -/
theorem modify_cons (done : entries.modify byDots change (key :: path) origin = some made) :
    ∃ origin' inner item, (entries.child key).modify byDots change path origin' = some inner
      ∧ made = entries.put key item ∧ Rewraps inner (entries.find? key) item := by
  rw [modify] at done
  rw [child]
  -- Nothing is there, or a value, a table, or an array of tables without rows or with some.
  split at done
  · rename_i found
    obtain ⟨inner, within, done⟩ := Option.bind_eq_some_iff.mp done
    cases done
    rw [found]
    exact ⟨_, inner, _, within, rfl, .new⟩
  · cases done
  · rename_i origin' old found
    split at done
    · cases done
    · obtain ⟨inner, within, done⟩ := Option.bind_eq_some_iff.mp done
      cases done
      rw [found]
      exact ⟨_, inner, _, within, rfl, .table⟩
  · cases done
  · rename_i last earlier found
    obtain ⟨inner, within, done⟩ := Option.bind_eq_some_iff.mp done
    cases done
    rw [found]
    exact ⟨_, inner, _, within, rfl, .row⟩

theorem Rewraps.turn (rewraps : Rewraps inner (entries.find? key) item) :
    (entries.put key item).turn key = entries.turn key := by
  rw [Entries.turn, Entries.turn, find?_put_self]
  generalize entries.find? key = there at rewraps ⊢
  cases rewraps <;> rfl

theorem Rewraps.child (rewraps : Rewraps inner (entries.find? key) item) :
    (entries.put key item).child key = inner := by
  rw [Entries.child, find?_put_self]
  generalize entries.find? key = there at rewraps
  cases rewraps <;> rfl

/-- A way into the item was there before, or it goes through the new entries. -/
theorem Rewraps.leads (rewraps : Rewraps inner (entries.find? key) item)
    (leads : item.toml.Leads rest) :
    entries.Leads (key :: rest)
      ∨ ∃ own, key :: rest = entries.turn key ++ own ∧ inner.Leads own := by
  rw [Entries.turn]
  generalize found : entries.find? key = there at rewraps ⊢
  cases rewraps with
  | new => exact Or.inr ⟨rest, rfl, leads⟩
  | table => exact Or.inr ⟨rest, rfl, leads⟩
  | @row last earlier =>
      rcases leads_rows_cons_iff.mp leads with before | ⟨own, rfl, through⟩
      · have old : (Item.rows (last :: earlier)).toml.Leads rest :=
          leads_rows_cons_iff.mpr (Or.inl before)
        exact Or.inl (leads_of_find? found (Or.inr old))
      · exact Or.inr ⟨own, rfl, through⟩

/-- The entries are the same but for what stands at the end of the path. -/
inductive Changed : List String → Entries → Entries → Prop
  | here {entries made : Entries} : Changed [] entries made
  | under {entries inner : Entries} {item : Item} {key : String} {path : List String}
      (more : Changed path (entries.child key) inner)
      (rewraps : Rewraps inner (entries.find? key) item) :
      Changed (key :: path) entries (entries.put key item)

theorem changed_of_modify (done : entries.modify byDots change path origin = some made) :
    Changed path entries made
      ∧ ∃ origin', change origin' (entries.inside path) = some (made.inside path) := by
  induction path generalizing entries made origin with
  | nil => exact ⟨.here, origin, done⟩
  | cons key path ih =>
      obtain ⟨origin', inner, item, within, rfl, rewraps⟩ := modify_cons done
      obtain ⟨more, changed⟩ := ih within
      rw [inside, inside, rewraps.child]
      exact ⟨.under more rewraps, changed⟩

/-- The way to the end of the path stays as it is. -/
theorem Changed.located (changed : Changed path entries made) (front_of : front <+: path) :
    made.located front = entries.located front := by
  induction changed generalizing front with
  | here => rw [List.prefix_nil.mp front_of]; rfl
  | under more rewraps ih =>
      cases front with
      | nil => rfl
      | cons key' front =>
          obtain ⟨rfl, inner_front⟩ := List.cons_prefix_cons.mp front_of
          rw [Entries.located, Entries.located, rewraps.turn, rewraps.child, ih inner_front]

/-- A change at the end of a path brings about the keys of the path and what it does there. -/
theorem Changed.leads (changed : Changed path entries made) (leads : made.Leads keys) :
    entries.Leads keys
      ∨ (∃ front key, front ++ [key] <+: path ∧ keys = entries.located front ++ [key])
      ∨ ∃ own, keys = entries.located path ++ own ∧ (made.inside path).Leads own := by
  induction changed generalizing keys with
  | here => exact Or.inr (Or.inr ⟨keys, rfl, leads⟩)
  | @under entries inner item key path more rewraps ih =>
      -- A way is old, or it ends at the key, or it goes on below it, where the changed entries are.
      rcases leads_put leads with old | ⟨rest, rfl, rfl | leads⟩
      · exact Or.inl old
      · exact Or.inr (Or.inl ⟨[], key, ⟨path, rfl⟩, rfl⟩)
      rcases rewraps.leads leads with old | ⟨own, through, leads⟩
      · exact Or.inl old
      rw [through]
      rcases ih leads with old | ⟨front, last, ⟨behind, rfl⟩, rfl⟩ | ⟨own', rfl, at_end⟩
      · exact Or.inl (leads_child old)
      · refine Or.inr (Or.inl ⟨key :: front, last, ⟨behind, rfl⟩, ?_⟩)
        rw [Entries.located, List.append_assoc]
      · refine Or.inr (Or.inr ⟨own', ?_, ?_⟩)
        · rw [Entries.located, List.append_assoc]
        · rwa [Entries.inside, rewraps.child]

/-- What is put at the end of a path brings about the keys of the path, its own key and what is in
it. -/
theorem Changed.leads_put (changed : Changed path entries made)
    (put : made.inside path = (entries.inside path).put key item) (leads : made.Leads keys) :
    entries.Leads keys
      ∨ (∃ front last, front ++ [last] <+: path ++ [key] ∧ keys = entries.located front ++ [last])
      ∨ ∃ own, item.toml.Leads own ∧ keys = entries.located path ++ key :: own := by
  rcases changed.leads leads with old | ⟨front, last, part, rfl⟩ | ⟨own, rfl, at_end⟩
  · exact Or.inl old
  · exact Or.inr (Or.inl ⟨front, last, part.trans (List.prefix_append _ _), rfl⟩)
  · rw [put] at at_end
    rcases Entries.leads_put at_end with old | ⟨rest, rfl, rfl | into⟩
    · exact Or.inl (leads_inside old)
    · exact Or.inr (Or.inl ⟨path, key, List.prefix_rfl, rfl⟩)
    · exact Or.inr (Or.inr ⟨rest, into, rfl⟩)

end Entries

end Toml
end StackSynth
