import StackSynth.FileSystem

/-!
# FileSystem — what stands where

* `FileSystem.get?_eq_some_iff` — the map and its list of objects;
* `FileSystem.WellFormed.of_objects` — well-formedness from the list of objects;
* `FileSystem.mem_children`, `nodup_children` — the names in a directory, each of them once;
* `Location.Below`, `FileSystem.WellFormed.directory_above` — what stands above an object;
* `FileSystem.WellFormed.set`, `erase`, `eraseTree` — changes that keep a file system well-formed.
-/

namespace StackSynth

namespace Location

/-- `l` lies strictly below `base`. -/
def Below (base l : Location) : Prop :=
  base <:+ l ∧ l ≠ base

theorem within_iff {base l : Location} : within base l = true ↔ base <:+ l := by
  simp [within]

theorem below_cons (name : Name) (base : Location) : Below base (name :: base) :=
  ⟨List.suffix_cons name base, by simp⟩

theorem Below.cons {base l : Location} (below : Below base l) (name : Name) :
    Below base (name :: l) := by
  refine ⟨below.1.trans (List.suffix_cons name l), ?_⟩
  intro same
  have shorter := below.1.length_le
  have longer := congrArg List.length same
  simp only [List.length_cons] at longer
  omega

/-- What lies below is reached by some names. -/
theorem below_iff {base l : Location} : Below base l ↔ ∃ names, names ≠ [] ∧ l = names ++ base := by
  constructor
  · rintro ⟨⟨names, rfl⟩, other⟩
    exact ⟨names, by rintro rfl; exact other rfl, rfl⟩
  · rintro ⟨names, some, rfl⟩
    exact ⟨List.suffix_append names base, by simpa using some⟩

theorem Below.ne_nil {base l : Location} (below : Below base l) : l ≠ [] := by
  rintro rfl
  exact below.2 (List.suffix_nil.mp below.1).symm

theorem within_iff_eq_or_below {base l : Location} : base <:+ l ↔ l = base ∨ Below base l := by
  constructor
  · intro inside
    by_cases same : l = base
    · exact Or.inl same
    · exact Or.inr ⟨inside, same⟩
  · rintro (rfl | below)
    · exact List.suffix_refl l
    · exact below.1

theorem Below.trans_suffix {base mid l : Location} (inner : Below mid l) (outer : base <:+ mid) :
    Below base l := by
  refine ⟨outer.trans inner.1, ?_⟩
  rintro rfl
  exact inner.2 (inner.1.eq_of_length_le outer.length_le).symm

theorem Below.suffix {base mid l : Location} (outer : Below base mid) (inner : mid <:+ l) :
    Below base l := by
  refine ⟨outer.1.trans inner, ?_⟩
  rintro rfl
  exact outer.2 (inner.eq_of_length_le outer.1.length_le)

/-- Of two places at one depth, at most one has something at or below it. -/
theorem eq_of_suffix {a b l : Location} (first : a <:+ l) (second : b <:+ l)
    (depth : a.length = b.length) : a = b :=
  (List.suffix_of_suffix_length_le first second (Nat.le_of_eq depth)).eq_of_length depth

end Location

namespace FileSystem

variable {fs : FileSystem}

/-! ## Look-up -/

theorem lookup_eq_some_iff {objects : List (Location × Object)}
    (once : (objects.map (·.1)).Nodup) {l : Location} {object : Object} :
    lookup l objects = some object ↔ (l, object) ∈ objects := by
  induction objects with
  | nil => simp [lookup]
  | cons entry rest ih =>
      obtain ⟨k, other⟩ := entry
      simp only [List.map_cons, List.nodup_cons] at once
      unfold lookup
      by_cases same : k = l
      · subst same
        have absent : (k, object) ∉ rest := fun member =>
          once.1 (List.mem_map.mpr ⟨_, member, rfl⟩)
        simp [absent, eq_comm]
      · simp [same, ih once.2, Ne.symm same]

theorem mem_of_lookup {objects : List (Location × Object)} {l : Location} {object : Object}
    (found : lookup l objects = some object) : (l, object) ∈ objects := by
  induction objects with
  | nil => cases found
  | cons entry rest ih =>
      obtain ⟨k, other⟩ := entry
      unfold lookup at found
      split at found
      · rename_i same
        cases found
        exact same ▸ List.mem_cons_self
      · exact List.mem_cons_of_mem _ (ih found)

theorem lookup_eq_none_iff {objects : List (Location × Object)} {l : Location} :
    lookup l objects = none ↔ ∀ entry ∈ objects, entry.1 ≠ l := by
  induction objects with
  | nil => simp [lookup]
  | cons entry rest ih =>
      obtain ⟨k, other⟩ := entry
      by_cases same : k = l <;> simp [lookup, same, ih]

theorem get?_cons (fs : FileSystem) (name : Name) (l : Location) :
    fs.get? (name :: l) = lookup (name :: l) fs.objects := by
  simp [get?]

theorem get?_eq_some_iff (once : (fs.objects.map (·.1)).Nodup) {l : Location} {object : Object}
    (inside : l ≠ []) : fs.get? l = some object ↔ (l, object) ∈ fs.objects := by
  simp [get?, inside, lookup_eq_some_iff once]

/-- Nothing stands below a place when none of the objects does. -/
theorem none_of_objects (once : (fs.objects.map (·.1)).Nodup) {base : Location}
    (free : ∀ entry ∈ fs.objects, Location.within base entry.1 = false) {l : Location}
    (below : Location.Below base l) : fs.get? l = none := by
  cases stands : fs.get? l with
  | none => rfl
  | some object =>
      have inside := free _ ((get?_eq_some_iff once below.ne_nil).mp stands)
      rw [Location.within_iff.mpr below.1] at inside
      cases inside

/-- No link stands anywhere when none of the objects is one. -/
theorem not_link_of_objects (plain : ∀ l target, (l, Object.link target) ∉ fs.objects) (l : Location)
    (target : Path) : fs.get? l ≠ some (.link target) := by
  intro linked
  cases l with
  | nil => cases linked
  | cons name here =>
      rw [get?_cons] at linked
      exact plain _ target (mem_of_lookup linked)

/-- It is enough that whatever the list of objects holds stands in a directory. -/
theorem WellFormed.of_objects (once : (fs.objects.map (·.1)).Nodup)
    (parents : ∀ entry ∈ fs.objects, fs.get? entry.1.tail = some .directory) : fs.WellFormed where
  parent := by
    intro name l object stands
    rw [get?_cons, lookup_eq_some_iff once] at stands
    exact parents _ stands
  once := once

/-! ## Children -/

theorem nameIn?_eq_some_iff {l m : Location} {name : Name} :
    nameIn? l m = some name ↔ m = name :: l := by
  cases m with
  | nil => simp [nameIn?]
  | cons first directory =>
      simp only [nameIn?]
      split
      · rename_i same
        simp [same]
      · rename_i other
        simp [other]

theorem mem_children {l : Location} {name : Name} :
    name ∈ fs.children l ↔ ∃ object, fs.get? (name :: l) = some object := by
  rw [get?_cons, ← Option.ne_none_iff_exists', ne_eq, lookup_eq_none_iff]
  simp [children, nameIn?_eq_some_iff]

theorem none_of_childless {l : Location} (childless : fs.children l = []) (name : Name) :
    fs.get? (name :: l) = none := by
  cases found : fs.get? (name :: l) with
  | none => rfl
  | some object =>
      have child := mem_children.mpr ⟨object, found⟩
      rw [childless] at child
      cases child

theorem nodup_children (well : fs.WellFormed) (l : Location) : (fs.children l).Nodup := by
  have once : fs.objects.Pairwise fun a b => a.1 ≠ b.1 := List.pairwise_map.mp well.once
  refine once.filterMap _ ?_
  intro a b differ name nameA other nameB same
  rw [nameIn?_eq_some_iff] at nameA nameB
  exact differ (by rw [nameA, nameB, same])

/-- Names in a directory stay if their objects are kept. -/
theorem names_filter {d : Location} (keep : Location → Bool) (kept : ∀ name, keep (name :: d) = true)
    (objects : List (Location × Object)) :
    (objects.filter fun entry => keep entry.1).filterMap (fun entry => nameIn? d entry.1)
      = objects.filterMap fun entry => nameIn? d entry.1 := by
  induction objects with
  | nil => rfl
  | cons entry rest ih =>
      cases named : nameIn? d entry.1 with
      | none => by_cases stays : keep entry.1 = true <;> simp [stays, named, ih]
      | some name =>
          have stays : keep entry.1 = true := nameIn?_eq_some_iff.mp named ▸ kept name
          simp [stays, named, ih]

section Elsewhere

variable {l d : Location}

theorem children_erase (other : ∀ name, name :: d ≠ l) : (fs.erase l).children d = fs.children d :=
  names_filter (fun k => decide (k ≠ l)) (by simpa using other) fs.objects

theorem children_set (other : ∀ name, name :: d ≠ l) (object : Object) :
    (fs.set l object).children d = fs.children d := by
  have own : nameIn? d l = none := Option.eq_none_iff_forall_ne_some.mpr fun name named =>
    other name (nameIn?_eq_some_iff.mp named).symm
  have erased : (fs.set l object).children d = (fs.erase l).children d := by
    simp [children, set, erase, own]
  exact erased.trans (children_erase other)

theorem children_eraseTree (away : ∀ name, ¬ l <:+ name :: d) :
    (fs.eraseTree l).children d = fs.children d := by
  refine names_filter (fun k => !Location.within l k) (fun name => ?_) fs.objects
  simpa [Bool.not_eq_true', Bool.eq_false_iff, Location.within_iff] using away name

end Elsewhere

/-! ## What stands above and below -/

/-- Whatever stands above an object is a directory. -/
theorem WellFormed.directory_above (well : fs.WellFormed) {base l : Location} {object : Object}
    (below : Location.Below base l) (stands : fs.get? l = some object) :
    fs.get? base = some .directory := by
  obtain ⟨names, some, rfl⟩ := Location.below_iff.mp below
  clear below
  induction names generalizing object with
  | nil => exact absurd rfl some
  | cons name rest ih =>
      have above := well.parent name (rest ++ base) object stands
      cases rest with
      | nil => exact above
      | cons next rest => exact ih (by simp) above

/-- Nothing stands below something that is no directory. -/
theorem WellFormed.none_below (well : fs.WellFormed) {base l : Location}
    (other : fs.get? base ≠ some .directory) (below : Location.Below base l) :
    fs.get? l = none := by
  cases stands : fs.get? l with
  | none => rfl
  | some object => exact absurd (well.directory_above below stands) other

theorem WellFormed.none_within (well : fs.WellFormed) {base l : Location}
    (nothing : fs.get? base = none) (within : base <:+ l) : fs.get? l = none := by
  rcases Location.within_iff_eq_or_below.mp within with rfl | below
  · exact nothing
  · exact well.none_below (by simp [nothing]) below

/-! ## Changes that cancel -/

theorem set_set (fs : FileSystem) (l : Location) (first second : Object) :
    (fs.set l first).set l second = fs.set l second := by
  simp [set]

/-- What was put where nothing stood can be taken away again. -/
theorem erase_set {l : Location} (inside : l ≠ []) (nothing : fs.get? l = none) (object : Object) :
    (fs.set l object).erase l = fs := by
  have away : ∀ entry ∈ fs.objects, entry.1 ≠ l := by
    rw [← lookup_eq_none_iff]
    simpa [get?, inside] using nothing
  have all : fs.objects.filter (fun entry => entry.1 ≠ l) = fs.objects :=
    List.filter_eq_self.mpr fun entry member => by simpa using away entry member
  rw [set, erase, List.filter_cons_of_neg (by simp), all, all]

/-! ## Changes keep a file system well-formed -/

theorem WellFormed.set (well : fs.WellFormed) {l : Location} {object : Object} (inside : l ≠ [])
    (parent : fs.get? l.tail = some .directory)
    (free : object = .directory ∨ ∀ name, fs.get? (name :: l) = none) :
    (fs.set l object).WellFormed where
  parent := by
    intro name directory other stands
    rw [get?_set _ _ _ _ inside] at stands ⊢
    split at stands
    · rename_i same
      subst same
      simpa using parent
    · have above := well.parent name directory other stands
      split
      · rename_i same
        subst same
        rcases free with rfl | free
        · rfl
        · rw [free name] at stands
          cases stands
      · exact above
  once := by
    have absent : l ∉ (fs.objects.filter fun entry => entry.1 ≠ l).map (·.1) := by
      simp
    exact List.nodup_cons.mpr ⟨absent, well.once.sublist (List.filter_sublist.map _)⟩

theorem WellFormed.erase (well : fs.WellFormed) {l : Location} (inside : l ≠ [])
    (free : ∀ name, fs.get? (name :: l) = none) : (fs.erase l).WellFormed where
  parent := by
    intro name directory other stands
    rw [get?_erase _ _ _ inside] at stands ⊢
    split at stands
    · cases stands
    · split
      · rename_i same
        subst same
        rw [free name] at stands
        cases stands
      · exact well.parent name directory other stands
  once := well.once.sublist (List.filter_sublist.map _)

theorem WellFormed.eraseTree (well : fs.WellFormed) {l : Location} (inside : l ≠ []) :
    (fs.eraseTree l).WellFormed where
  parent := by
    intro name directory other stands
    rw [get?_eraseTree _ _ _ inside] at stands ⊢
    split at stands
    · cases stands
    · rename_i away
      split
      · rename_i within
        rw [Location.within_iff] at away within
        exact absurd (within.trans (List.suffix_cons name directory)) away
      · exact well.parent name directory other stands
  once := well.once.sublist (List.filter_sublist.map _)

end FileSystem
end StackSynth
