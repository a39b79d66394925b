import Mathlib
import StackSynth.Dictionary

/-!
# Dictionary — what is found under a key

A dictionary is known by its look-ups.  A list of pairs that are put in one after another is looked
up from its end, and grouping them collects the values of each key in the order of the list.

* `Dictionary.get?_eq_some_iff` — in a sorted dictionary, a look-up finds what is a member;
* `Dictionary.Sorted.ext` — sorted dictionaries with the same look-ups are the same;
* `Dictionary.get?_ofList`, `get?_grouped` — the look-ups of dictionaries that are made from lists;
* `Dictionary.ofList_of_sorted` — a sorted dictionary is made from itself.
-/

namespace StackSynth
namespace Dictionary

variable {α β : Type} {d other : Dictionary α} {pairs : List (String × α)} {key : String} {value : α}

/-! ## Members -/

theorem mem_of_get? (found : get? d key = some value) : (key, value) ∈ d := by
  induction d with
  | nil => cases found
  | cons pair rest ih =>
      rw [get?] at found
      split at found
      · rename_i same
        obtain rfl := Option.some.inj found
        exact same ▸ List.mem_cons_self
      · exact List.mem_cons_of_mem _ (ih found)

theorem get?_eq_some_of_nodup (once : (keys d).Nodup) (member : (key, value) ∈ d) :
    get? d key = some value := by
  induction d with
  | nil => cases member
  | cons pair rest ih =>
      rw [keys, List.map_cons] at once
      obtain ⟨fresh, once⟩ := List.nodup_cons.mp once
      rw [get?]
      rcases List.mem_cons.mp member with rfl | member
      · rw [if_pos rfl]
      · have differ : pair.1 ≠ key := fun same => fresh (same ▸ List.mem_map_of_mem member)
        rw [if_neg differ, ih once member]

theorem sorted_iff_keys : Sorted d ↔ (keys d).Pairwise (· < ·) :=
  List.pairwise_map.symm

theorem Sorted.nodup (sorted : Sorted d) : (keys d).Nodup :=
  List.pairwise_map.mpr (sorted.imp fun less => ne_of_lt less)

theorem get?_eq_some_iff_of_nodup (once : (keys d).Nodup) :
    get? d key = some value ↔ (key, value) ∈ d :=
  ⟨mem_of_get?, get?_eq_some_of_nodup once⟩

theorem get?_eq_some_iff (sorted : Sorted d) : get? d key = some value ↔ (key, value) ∈ d :=
  get?_eq_some_iff_of_nodup sorted.nodup

theorem get?_eq_none_iff : get? d key = none ↔ key ∉ keys d := by
  induction d with
  | nil => simp [get?, keys]
  | cons pair rest ih =>
      rw [get?, keys, List.map_cons, List.mem_cons, not_or]
      split
      · rename_i same
        simp [same]
      · rename_i differ
        rw [ih, keys]
        exact ⟨fun absent => ⟨fun same => differ same.symm, absent⟩, And.right⟩

/-- Two dictionaries that answer alike hold the same members, and so the same list. -/
theorem Sorted.ext (sorted : Sorted d) (sorted' : Sorted other)
    (same : ∀ key, get? d key = get? other key) : d = other := by
  have members : ∀ pair, pair ∈ d ↔ pair ∈ other := fun pair => by
    rw [← get?_eq_some_iff sorted, ← get?_eq_some_iff sorted', same]
  have once : ∀ {d : Dictionary α}, Sorted d → d.Nodup := fun sorted => List.Nodup.of_map _ sorted.nodup
  have perm : d.Perm other := (List.perm_ext_iff_of_nodup (once sorted) (once sorted')).mpr members
  exact perm.eq_of_pairwise (fun p q _ _ less more => absurd less (String.lt_asymm more)) sorted sorted'

/-! ## Other values -/

theorem get?_mapValues (f : α → β) : get? (mapValues f d) key = (get? d key).map f := by
  induction d with
  | nil => rfl
  | cons pair rest ih =>
      rw [mapValues, List.map_cons, get?, get?]
      split
      · rfl
      · exact ih

theorem Sorted.mapValues (sorted : Sorted d) (f : α → β) : Sorted (Dictionary.mapValues f d) :=
  List.pairwise_map.mpr sorted

/-! ## Dictionaries of lists -/

theorem get?_append (front back : List (String × α)) (key : String) :
    get? (front ++ back) key = (get? front key).or (get? back key) := by
  induction front with
  | nil => rfl
  | cons pair rest ih =>
      rw [List.cons_append, get?, get?, ih]
      split <;> rfl

theorem get?_foldl_insert (pairs : List (String × α)) (d : Dictionary α) (key : String) :
    get? (pairs.foldl (fun d pair => insert pair.1 pair.2 d) d) key
      = (get? pairs.reverse key).or (get? d key) := by
  induction pairs generalizing d with
  | nil => rfl
  | cons pair rest ih =>
      rw [List.foldl_cons, ih, get?_insert, List.reverse_cons, get?_append, Option.or_assoc]
      congr 1
      rw [get?, get?]
      split <;> rfl

/-- Of the values of a key, the last one stands. -/
theorem get?_ofList (pairs : List (String × α)) (key : String) :
    get? (ofList pairs) key = get? pairs.reverse key := by
  rw [ofList, get?_foldl_insert, get?, Option.or_none]

theorem get?_ofList_eq_some_iff (once : (pairs.map (·.1)).Nodup) :
    get? (ofList pairs) key = some value ↔ (key, value) ∈ pairs := by
  have once' : (keys pairs.reverse).Nodup := by
    rw [keys, List.map_reverse]
    exact List.nodup_reverse.mpr once
  rw [get?_ofList, get?_eq_some_iff_of_nodup once', List.mem_reverse]

/-- A dictionary is made from its own members. -/
theorem ofList_of_sorted (sorted : Sorted d) : ofList d = d := by
  refine (sorted_ofList d).ext sorted fun key => Option.ext fun value => ?_
  rw [get?_ofList_eq_some_iff sorted.nodup, get?_eq_some_iff sorted]

theorem mem_of_mem_ofList {pair : String × α} (member : pair ∈ ofList pairs) : pair ∈ pairs := by
  have found := (get?_eq_some_iff (sorted_ofList pairs)).mpr member
  rw [get?_ofList] at found
  exact List.mem_reverse.mp (mem_of_get? found)

theorem ofList_eq_nil_iff : ofList pairs = [] ↔ pairs = [] := by
  constructor
  · intro empty
    refine List.eq_nil_iff_forall_not_mem.mpr fun pair member => ?_
    have known : pair.1 ∈ keys pairs.reverse :=
      List.mem_map_of_mem (List.mem_reverse.mpr member)
    refine absurd known (get?_eq_none_iff.mp ?_)
    rw [← get?_ofList, empty, get?]
  · rintro rfl
    rfl

/-! ## Groups -/

/-- The values of a key, in the order of the list. -/
def valuesOf (pairs : List (String × α)) (key : String) : List α :=
  (pairs.filter fun pair => pair.1 = key).map (·.2)

theorem valuesOf_eq_nil_iff : valuesOf pairs key = [] ↔ ∀ pair ∈ pairs, pair.1 ≠ key := by
  simp [valuesOf]

theorem sorted_grouped (pairs : List (String × α)) : Sorted (grouped pairs) := by
  suffices ∀ d : Dictionary (List α), Sorted d → Sorted (pairs.foldl
      (fun d pair => insert pair.1 ((get? d pair.1).getD [] ++ [pair.2]) d) d) from
    this [] sorted_nil
  induction pairs with
  | nil => exact fun _ sorted => sorted
  | cons pair rest ih => exact fun d sorted => ih _ (sorted.insert _ _)

/-- What has been collected for a key, with what is still to come. -/
theorem get?_foldl_grouped (pairs : List (String × α)) (d : Dictionary (List α)) (key : String) :
    get? (pairs.foldl (fun d pair => insert pair.1 ((get? d pair.1).getD [] ++ [pair.2]) d) d) key
      = if valuesOf pairs key = [] then get? d key
        else some ((get? d key).getD [] ++ valuesOf pairs key) := by
  induction pairs generalizing d with
  | nil => rfl
  | cons pair rest ih =>
      rw [List.foldl_cons, ih, get?_insert]
      -- The first value goes to its group, which the others find as it is then.
      by_cases same : pair.1 = key
      · have more : valuesOf (pair :: rest) key = pair.2 :: valuesOf rest key := by
          simp [valuesOf, same]
        subst same
        rw [if_pos rfl, more, if_neg (List.cons_ne_nil _ _), Option.getD_some, List.append_assoc,
          List.singleton_append]
        split
        · rename_i none
          rw [none]
        · rfl
      · have less : valuesOf (pair :: rest) key = valuesOf rest key := by
          simp [valuesOf, same]
        rw [if_neg same, less]

theorem get?_grouped (pairs : List (String × α)) (key : String) :
    get? (grouped pairs) key
      = if valuesOf pairs key = [] then none else some (valuesOf pairs key) := by
  rw [grouped, get?_foldl_grouped]
  rfl

theorem mem_of_mem_grouped {group : String × List α} (member : group ∈ grouped pairs) {value : α}
    (inside : value ∈ group.2) : (group.1, value) ∈ pairs := by
  have found := (get?_eq_some_iff (sorted_grouped pairs)).mpr member
  rw [get?_grouped] at found
  split at found
  · cases found
  · rw [← Option.some.inj found] at inside
    obtain ⟨pair, known, rfl⟩ := List.mem_map.mp inside
    obtain ⟨known, same⟩ := List.mem_filter.mp known
    rwa [← of_decide_eq_true same]

theorem grouped_eq_nil_iff : grouped pairs = [] ↔ pairs = [] := by
  constructor
  · intro empty
    refine List.eq_nil_iff_forall_not_mem.mpr fun pair member => ?_
    have found := get?_grouped pairs pair.1
    rw [empty, get?] at found
    have none : valuesOf pairs pair.1 = [] := by
      by_contra some
      rw [if_neg some] at found
      cases found
    exact valuesOf_eq_nil_iff.mp none pair member rfl
  · rintro rfl
    rfl

/-- One more value makes one group longer by one, or is a group of its own. -/
theorem sum_insert {d : Dictionary (List α)} (sorted : Sorted d) (key : String) (value : α) :
    ((insert key ((get? d key).getD [] ++ [value]) d).map fun group => group.2.length).sum
      = (d.map fun group => group.2.length).sum + 1 := by
  induction d with
  | nil => simp [insert, get?]
  | cons group rest ih =>
      obtain ⟨k, values⟩ := group
      by_cases same : k = key
      · subst same
        simp only [insert, get?, String.lt_irrefl, if_false, if_true, Option.getD_some,
          List.map_cons, List.sum_cons, List.length_append, List.length_singleton]
        omega
      have differ : key ≠ k := fun other => same other.symm
      simp only [insert, get?, same, differ, if_false]
      split
      · next before =>
        -- The keys are sorted, so that none of the others is the new one.
        have absent : get? rest key = none := by
          refine get?_eq_none_iff.mpr fun known => ?_
          obtain ⟨pair, member, rfl⟩ := List.mem_map.mp known
          exact String.lt_asymm before ((List.pairwise_cons.mp sorted).1 pair member)
        simp only [absent, Option.getD_none, List.nil_append, List.map_cons, List.sum_cons,
          List.length_singleton]
        omega
      · rw [List.map_cons, List.map_cons, List.sum_cons, List.sum_cons,
          ih (List.pairwise_cons.mp sorted).2, Nat.add_assoc]

/-- Every value is in one group. -/
theorem sum_grouped (pairs : List (String × α)) :
    ((grouped pairs).map fun group => group.2.length).sum = pairs.length := by
  suffices ∀ d : Dictionary (List α), Sorted d → ((pairs.foldl
      (fun d pair => insert pair.1 ((get? d pair.1).getD [] ++ [pair.2]) d) d).map
        fun group => group.2.length).sum = (d.map fun group => group.2.length).sum + pairs.length by
    simpa [grouped] using this [] sorted_nil
  induction pairs with
  | nil => exact fun d _ => rfl
  | cons pair rest ih =>
      intro d sorted
      rw [List.foldl_cons, ih _ (sorted.insert _ _), sum_insert sorted, List.length_cons]
      omega

end Dictionary
end StackSynth
