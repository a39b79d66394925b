/-!
# Dictionary — values under text keys, in the order of the keys

A dictionary is a list of pairs whose keys increase strictly.  Texts are compared character by
character, which is the order of their UTF-8 octets.

* `Dictionary.insert` puts a value under a key and drops the value that stood there;
* `Dictionary.get?` looks a key up;
* `Dictionary.Sorted` is the invariant, which `empty` has and `insert` keeps;
* `get?_insert` says what an insertion does to every look-up.
-/

namespace StackSynth

/-- Values under text keys. -/
abbrev Dictionary (α : Type) := List (String × α)

namespace Dictionary

variable {α β : Type}

/-- The keys increase strictly. -/
def Sorted (d : Dictionary α) : Prop :=
  d.Pairwise fun p q => p.1 < q.1

def insert (key : String) (value : α) : Dictionary α → Dictionary α
  | [] => [(key, value)]
  | (k, v) :: rest =>
      if key < k then (key, value) :: (k, v) :: rest
      else if key = k then (key, value) :: rest
      else (k, v) :: insert key value rest

def get? (d : Dictionary α) (key : String) : Option α :=
  match d with
  | [] => none
  | (k, v) :: rest => if k = key then some v else get? rest key

def keys (d : Dictionary α) : List String :=
  d.map (·.1)

/-- The pairs of a list, put in one after another: a later value replaces an earlier one. -/
def ofList (pairs : List (String × α)) : Dictionary α :=
  pairs.foldl (fun d pair => insert pair.1 pair.2 d) []

/-- The values of each key, in the order of the list. -/
def grouped (pairs : List (String × α)) : Dictionary (List α) :=
  pairs.foldl (fun d pair => insert pair.1 ((get? d pair.1).getD [] ++ [pair.2]) d) []

def mapValues (f : α → β) (d : Dictionary α) : Dictionary β :=
  d.map fun pair => (pair.1, f pair.2)

/-! ## Laws -/

theorem get?_insert (d : Dictionary α) (key other : String) (value : α) :
    get? (insert key value d) other = if key = other then some value else get? d other := by
  induction d with
  | nil => simp [insert, get?]
  | cons pair rest ih =>
      obtain ⟨k, v⟩ := pair
      simp only [insert]
      -- The key goes in front of a greater one, replaces the same one, or goes further back.
      split
      · simp [get?]
      · split
        · rename_i same
          subst same
          simp only [get?]
          split <;> rfl
        · rename_i differ
          simp only [get?, ih]
          by_cases hk : k = other
          · have : key ≠ other := fun h => differ (h.trans hk.symm)
            simp [hk, this]
          · simp [hk]

theorem mem_keys_insert {d : Dictionary α} {key k : String} {value : α}
    (h : k ∈ keys (insert key value d)) : k = key ∨ k ∈ keys d := by
  induction d with
  | nil => simpa [insert, keys] using h
  | cons pair rest ih =>
      obtain ⟨k₀, v₀⟩ := pair
      simp only [insert] at h
      split at h
      · simpa [keys] using h
      · split at h
        · rename_i same
          subst same
          simp only [keys, List.map_cons, List.mem_cons] at h ⊢
          rcases h with h | h
          · exact Or.inl h
          · exact Or.inr (Or.inr h)
        · simp only [keys, List.map_cons, List.mem_cons] at h ⊢
          rcases h with h | h
          · exact Or.inr (Or.inl h)
          · rcases ih (by simpa [keys] using h) with h | h
            · exact Or.inl h
            · exact Or.inr (Or.inr (by simpa [keys] using h))

theorem sorted_nil : Sorted ([] : Dictionary α) :=
  List.Pairwise.nil

theorem Sorted.insert {d : Dictionary α} (sorted : Sorted d) (key : String) (value : α) :
    Sorted (Dictionary.insert key value d) := by
  induction d with
  | nil => simp [Sorted, Dictionary.insert]
  | cons pair rest ih =>
      obtain ⟨k, v⟩ := pair
      have head : ∀ q ∈ rest, k < q.1 := (List.pairwise_cons.mp sorted).1
      have tail : Sorted rest := (List.pairwise_cons.mp sorted).2
      simp only [Dictionary.insert]
      split
      · rename_i less
        refine List.pairwise_cons.mpr ⟨?_, sorted⟩
        intro q member
        rcases List.mem_cons.mp member with rfl | member
        · exact less
        · exact String.lt_trans less (head q member)
      · rename_i notLess
        split
        · rename_i same
          subst same
          exact List.pairwise_cons.mpr ⟨head, tail⟩
        · rename_i differ
          refine List.pairwise_cons.mpr ⟨?_, ih tail⟩
          intro q member
          have known : q.1 ∈ keys (Dictionary.insert key value rest) :=
            List.mem_map.mpr ⟨q, member, rfl⟩
          -- What stands behind the head is the new key or an old one; the head is less than either.
          rcases mem_keys_insert known with same | old
          · have : k < key := by
              rcases Decidable.em (k < key) with h | h
              · exact h
              · exact absurd (String.le_antisymm (String.not_lt.mp h) (String.not_lt.mp notLess))
                  differ
            exact same ▸ this
          · obtain ⟨p, hp, hk⟩ := List.mem_map.mp old
            exact hk ▸ head p hp

theorem sorted_ofList (pairs : List (String × α)) : Sorted (ofList pairs) := by
  suffices ∀ d : Dictionary α, Sorted d →
      Sorted (pairs.foldl (fun d pair => insert pair.1 pair.2 d) d) from this [] sorted_nil
  induction pairs with
  | nil => exact fun _ h => h
  | cons pair rest ih => exact fun d h => ih _ (h.insert pair.1 pair.2)

theorem insert_perm {d : Dictionary α} {key : String} {value : α} (fresh : key ∉ keys d) :
    (insert key value d).Perm ((key, value) :: d) := by
  induction d with
  | nil => exact .refl _
  | cons pair rest ih =>
      obtain ⟨k, v⟩ := pair
      simp only [keys, List.map_cons, List.mem_cons, not_or] at fresh
      simp only [insert, if_neg fresh.1]
      split
      · exact .refl _
      · exact ((ih fresh.2).cons (k, v)).trans (.swap (key, value) (k, v) rest)

/-- Pairs with different keys are only put in order. -/
theorem ofList_perm {pairs : List (String × α)} (once : (pairs.map (·.1)).Nodup) :
    (ofList pairs).Perm pairs := by
  suffices ∀ d : Dictionary α, (∀ pair ∈ pairs, pair.1 ∉ keys d) →
      (pairs.foldl (fun d pair => insert pair.1 pair.2 d) d).Perm (d ++ pairs) from
    this [] (by simp [keys])
  induction pairs with
  | nil => exact fun d _ => by simp
  | cons pair rest ih =>
      intro d fresh
      obtain ⟨first, others⟩ := List.forall_mem_cons.mp fresh
      obtain ⟨other, once⟩ := List.nodup_cons.mp (List.map_cons ▸ once)
      refine (ih once _ fun next member known => ?_).trans ?_
      · rcases mem_keys_insert known with same | old
        · exact other (same ▸ List.mem_map_of_mem member)
        · exact others next member old
      · exact ((insert_perm first).append_right rest).trans List.perm_middle.symm

end Dictionary
end StackSynth
