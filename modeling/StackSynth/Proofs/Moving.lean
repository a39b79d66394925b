import StackSynth.Proofs.FileSystem

/-!
# Moving — a directory in another place

`FileSystem.moveTree` renames every location at or below one place.  When nothing stands at the
other place, the objects are found there afterwards, and all others where they were.

* `FileSystem.get?_moveTree_of_away`, `stood_of_moveTree` — whatever stood at the two places;
* `FileSystem.Movable` — when a directory can be moved;
* `FileSystem.Movable.get?_moved`, `get?_other` — what stands where afterwards;
* `FileSystem.Movable.wellFormed`.
-/

namespace StackSynth
namespace FileSystem

variable {fs : FileSystem} {source target : Location}

/-! ## The list of objects -/

theorem rebase_append (names : List Name) :
    Location.rebase source target (names ++ source) = names ++ target := by
  have within : Location.within source (names ++ source) = true :=
    Location.within_iff.mpr (List.suffix_append names source)
  simp [Location.rebase, within]

theorem rebase_of_not_within {l : Location} (away : ¬ source <:+ l) :
    Location.rebase source target l = l := by
  have within : Location.within source l = false := by
    rw [Bool.eq_false_iff]
    exact fun inside => away (Location.within_iff.mp inside)
  simp [Location.rebase, within]

/-- Where an object was that is found at `l` after a move. -/
theorem mem_moveTree_iff {l : Location} {object : Object} :
    (l, object) ∈ (fs.moveTree source target).objects ↔
      (∃ names, l = names ++ target ∧ (names ++ source, object) ∈ fs.objects)
        ∨ ¬ source <:+ l ∧ (l, object) ∈ fs.objects := by
  simp only [moveTree, List.mem_map, Prod.mk.injEq]
  constructor
  · rintro ⟨⟨k, other⟩, member, rfl, rfl⟩
    by_cases within : source <:+ k
    · obtain ⟨names, rfl⟩ := within
      exact Or.inl ⟨names, rebase_append names, member⟩
    · rw [rebase_of_not_within within]
      exact Or.inr ⟨within, member⟩
  · rintro (⟨names, rfl, member⟩ | ⟨within, member⟩)
    · exact ⟨_, member, rebase_append names, rfl⟩
    · exact ⟨_, member, rebase_of_not_within within, rfl⟩

/-! ## Whatever stands at the two places -/

theorem lookup_map {f : Location → Location} {l : Location} (same : ∀ k, f k = l ↔ k = l)
    (objects : List (Location × Object)) :
    lookup l (objects.map fun entry => (f entry.1, entry.2)) = lookup l objects := by
  induction objects with
  | nil => rfl
  | cons entry rest ih => simp [lookup, same, ih]

theorem exists_of_lookup_map {f : Location → Location} {l : Location} {object : Object}
    {objects : List (Location × Object)}
    (found : lookup l (objects.map fun entry => (f entry.1, entry.2)) = some object) :
    ∃ k, f k = l ∧ lookup k objects = some object := by
  induction objects with
  | nil => cases found
  | cons entry rest ih =>
      obtain ⟨k, other⟩ := entry
      simp only [List.map_cons, lookup] at found
      split at found
      · rename_i same
        exact ⟨k, same, by simpa [lookup] using found⟩
      · rename_i differ
        obtain ⟨m, same, known⟩ := ih found
        refine ⟨m, same, ?_⟩
        rw [lookup, if_neg]
        · exact known
        · rintro rfl
          exact differ same

/-- Nothing else moves. -/
theorem get?_moveTree_of_away {l : Location} (awaySource : ¬ source <:+ l)
    (awayTarget : ¬ target <:+ l) : (fs.moveTree source target).get? l = fs.get? l := by
  have same : ∀ k, Location.rebase source target k = l ↔ k = l := by
    intro k
    by_cases within : source <:+ k
    · obtain ⟨names, rfl⟩ := within
      rw [rebase_append]
      constructor
      · rintro rfl
        exact absurd (List.suffix_append names target) awayTarget
      · rintro rfl
        exact absurd (List.suffix_append names source) awaySource
    · rw [rebase_of_not_within within]
  simp only [get?, moveTree, lookup_map same]

theorem children_moveTree {d : Location} (awaySource : ∀ name, ¬ source <:+ name :: d)
    (awayTarget : ∀ name, ¬ target <:+ name :: d) :
    (fs.moveTree source target).children d = fs.children d := by
  have same : ∀ k, nameIn? d (Location.rebase source target k) = nameIn? d k := by
    intro k
    by_cases within : source <:+ k
    · obtain ⟨names, rfl⟩ := within
      rw [rebase_append]
      have before : nameIn? d (names ++ source) = none :=
        Option.eq_none_iff_forall_ne_some.mpr fun name named =>
          awaySource name (nameIn?_eq_some_iff.mp named ▸ List.suffix_append names source)
      have behind : nameIn? d (names ++ target) = none :=
        Option.eq_none_iff_forall_ne_some.mpr fun name named =>
          awayTarget name (nameIn?_eq_some_iff.mp named ▸ List.suffix_append names target)
      rw [before, behind]
    · rw [rebase_of_not_within within]
  simp only [children, moveTree, List.filterMap_map, Function.comp_def, same]

/-- What is found after a move stood where it is, or below the source. -/
theorem stood_of_moveTree (inside : source ≠ []) {l : Location} {object : Object}
    (stands : (fs.moveTree source target).get? l = some object) :
    ∃ k, fs.get? k = some object ∧ (k = l ∨ source <:+ k) := by
  by_cases root : l = []
  · subst root
    exact ⟨[], stands, Or.inl rfl⟩
  · simp only [get?, moveTree, root, if_false] at stands
    obtain ⟨k, same, known⟩ := exists_of_lookup_map stands
    by_cases within : source <:+ k
    · have some : k ≠ [] := by
        rintro rfl
        exact inside (List.suffix_nil.mp within)
      exact ⟨k, by simpa [get?, some] using known, Or.inr within⟩
    · rw [rebase_of_not_within within] at same
      subst same
      exact ⟨k, by simpa [get?, root] using known, Or.inl rfl⟩

/-- Something is where the source went. -/
theorem there_of_moveTree (inside : source ≠ []) {object : Object}
    (stands : fs.get? source = some object) : (fs.moveTree source target).get? target ≠ none := by
  by_cases root : target = []
  · simp [root, get?_root]
  · have member : (source, object) ∈ fs.objects :=
      mem_of_lookup (by simpa [get?, inside] using stands)
    have moved : (target, object) ∈ (fs.moveTree source target).objects :=
      mem_moveTree_iff.mpr (Or.inl ⟨[], rfl, member⟩)
    rw [get?, if_neg root, ne_eq, lookup_eq_none_iff]
    exact fun away => away _ moved rfl

/-! ## Moves -/

/-- `source` stands, `target` does not, and can be what `source` becomes. -/
structure Movable (fs : FileSystem) (source target : Location) : Prop where
  stands : fs.get? source = some .directory
  inside : source ≠ []
  free : fs.get? target = none
  parent : fs.get? target.tail = some .directory
  apart : ¬ source <:+ target

theorem Movable.ne_nil (movable : Movable fs source target) : target ≠ [] := by
  rintro rfl
  have root := movable.free
  rw [get?_root] at root
  cases root

theorem Movable.nothing (movable : Movable fs source target) (well : fs.WellFormed) {l : Location}
    (within : target <:+ l) : fs.get? l = none :=
  well.none_within movable.free within

theorem Movable.once (movable : Movable fs source target) (well : fs.WellFormed) :
    ((fs.moveTree source target).objects.map (·.1)).Nodup := by
  -- Nothing stood at the target or below it, so a location that moved meets none that stayed.
  have apart : ∀ entry ∈ fs.objects, ¬ target <:+ entry.1 := by
    rintro ⟨k, object⟩ member within
    have some : k ≠ [] := by
      rintro rfl
      exact movable.ne_nil (List.suffix_nil.mp within)
    have stands := (get?_eq_some_iff well.once some).mpr member
    rw [movable.nothing well within] at stands
    cases stands
  rw [moveTree, List.map_map, List.Nodup, List.pairwise_map]
  refine (List.pairwise_map.mp well.once).imp_of_mem ?_
  intro a b memberA memberB differ same
  simp only [Function.comp_apply] at same
  by_cases withinA : source <:+ a.1
  · obtain ⟨names, knownA⟩ := withinA
    rw [← knownA, rebase_append] at same
    by_cases withinB : source <:+ b.1
    · obtain ⟨others, knownB⟩ := withinB
      rw [← knownB, rebase_append] at same
      rw [← knownA, ← knownB, List.append_cancel_right same] at differ
      exact differ rfl
    · rw [rebase_of_not_within withinB] at same
      exact apart b memberB ⟨names, same⟩
  · rw [rebase_of_not_within withinA] at same
    by_cases withinB : source <:+ b.1
    · obtain ⟨others, knownB⟩ := withinB
      rw [← knownB, rebase_append] at same
      exact apart a memberA ⟨others, same.symm⟩
    · rw [rebase_of_not_within withinB] at same
      exact differ same

/-- What was below `source` is below `target`. -/
theorem Movable.get?_moved (movable : Movable fs source target) (well : fs.WellFormed)
    (names : List Name) :
    (fs.moveTree source target).get? (names ++ target) = fs.get? (names ++ source) := by
  apply Option.ext
  intro object
  have inside : names ++ target ≠ [] := by simp [movable.ne_nil]
  have inside' : names ++ source ≠ [] := by simp [movable.inside]
  rw [get?_eq_some_iff (movable.once well) inside, get?_eq_some_iff well.once inside',
    mem_moveTree_iff]
  constructor
  · rintro (⟨others, same, member⟩ | ⟨-, member⟩)
    · rw [List.append_cancel_right same]
      exact member
    · have stands := (get?_eq_some_iff well.once inside).mpr member
      rw [movable.nothing well (List.suffix_append names target)] at stands
      cases stands
  · exact fun member => Or.inl ⟨names, rfl, member⟩

/-- Nothing else moves. -/
theorem Movable.get?_other (movable : Movable fs source target) (well : fs.WellFormed)
    {l : Location} (away : ¬ target <:+ l) :
    (fs.moveTree source target).get? l = if source <:+ l then none else fs.get? l := by
  by_cases root : l = []
  · subst root
    simp [get?_root, movable.inside]
  apply Option.ext
  intro object
  rw [get?_eq_some_iff (movable.once well) root, mem_moveTree_iff]
  split
  · rename_i within
    constructor
    · rintro (⟨names, rfl, -⟩ | ⟨outside, -⟩)
      · exact absurd (List.suffix_append names target) away
      · exact absurd within outside
    · intro none
      cases none
  · rename_i outside
    rw [get?_eq_some_iff well.once root]
    constructor
    · rintro (⟨names, rfl, -⟩ | ⟨-, member⟩)
      · exact absurd (List.suffix_append names target) away
      · exact member
    · exact fun member => Or.inr ⟨outside, member⟩

theorem Movable.wellFormed (movable : Movable fs source target) (well : fs.WellFormed) :
    (fs.moveTree source target).WellFormed where
  parent := by
    intro name directory object stands
    by_cases within : target <:+ name :: directory
    · obtain ⟨names, known⟩ := within
      rw [← known, movable.get?_moved well] at stands
      cases names with
      | nil =>
          -- The directory in which the target was put has not moved.
          obtain rfl : target = name :: directory := known
          have awayTarget : ¬ name :: directory <:+ directory := fun within => by
            have length := within.length_le
            simp only [List.length_cons] at length
            omega
          have awaySource : ¬ source <:+ directory := fun within =>
            movable.apart (within.trans (List.suffix_cons name directory))
          rw [movable.get?_other well awayTarget, if_neg awaySource]
          exact movable.parent
      | cons first names =>
          obtain ⟨rfl, rfl⟩ : first = name ∧ names ++ target = directory := by simpa using known
          rw [movable.get?_moved well]
          exact well.parent first (names ++ source) object stands
    · have away : ¬ target <:+ directory := fun inside =>
        within (inside.trans (List.suffix_cons name directory))
      rw [movable.get?_other well within] at stands
      rw [movable.get?_other well away]
      split at stands
      · cases stands
      · rename_i outside
        have above := well.parent name directory object stands
        have outside' : ¬ source <:+ directory := fun inside =>
          outside (inside.trans (List.suffix_cons name directory))
        rw [if_neg outside']
        exact above
  once := movable.once well

end FileSystem
end StackSynth
