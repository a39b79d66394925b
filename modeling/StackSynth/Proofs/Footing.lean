import StackSynth.Proofs.Sparing

/-!
# Footing — what is found below a root without links

Where a path leads to a root and no link stands there, names below the path lead to places below
the root, through directories and nothing else.  Whatever works elsewhere leaves what is found.

* `FileSystem.Footing` — a root without links, and `Footing.stat_descend`, what is found below it;
* `FileSystem.Aside` — work at and below one place, and `Aside.stat`, what is found elsewhere.
-/

namespace StackSynth

namespace FileSystem

variable {fs mid after : FileSystem} {p : Path} {root : Location} {names ns : List Name}

/-! ## Footing -/

/-- The path leads to the root whatever is below it, and no link is there. -/
structure Footing (fs : FileSystem) (p : Path) (root : Location) : Prop where
  rooted : Rooted fs p root
  linkless : Linkless fs root

/-- The names lead down through directories. -/
def Directories (fs : FileSystem) (base : Location) (names : List Name) : Prop :=
  ∀ up rest, names = up ++ rest → up ≠ [] → fs.get? (up.reverse ++ base) = some .directory

theorem directories_concat {base : Location} {name : Name} :
    Directories fs base (names ++ [name])
      ↔ Directories fs base names ∧ fs.get? (name :: (names.reverse ++ base)) = some .directory := by
  constructor
  · intro all
    refine ⟨fun up rest parts => all up (rest ++ [name]) (by simp [parts]), ?_⟩
    simpa using all (names ++ [name]) [] (by simp) (by simp)
  · rintro ⟨others, last⟩ up rest parts some
    rcases List.eq_nil_or_concat rest with rfl | ⟨front, final, rfl⟩
    · obtain rfl : names ++ [name] = up := by simpa using parts
      simpa using last
    · rw [List.concat_eq_append, ← List.append_assoc] at parts
      exact others up front (List.append_inj' parts rfl).1 some

theorem directories_cons {base : Location} {name : Name} :
    Directories fs base (name :: names)
      ↔ fs.get? (name :: base) = some .directory ∧ Directories fs (name :: base) names := by
  constructor
  · intro all
    refine ⟨all [name] names rfl (by simp), fun up rest parts some => ?_⟩
    simpa using all (name :: up) rest (by simp [parts]) (by simp)
  · rintro ⟨first, others⟩ up rest parts some
    obtain ⟨head, up, rfl⟩ := List.exists_cons_of_ne_nil some
    obtain ⟨rfl, parts'⟩ := List.cons.inj parts
    cases up with
    | nil => simpa using first
    | cons next up => simpa using others (next :: up) rest parts' (by simp)

/-- Without links, names are entered if and only if they lead down through directories. -/
theorem enter_down_iff {base : Location} (linkless : Linkless fs base) {links left : Nat} {l : Location} :
    enter fs false links base (names.map .down) = .ok (left, l)
      ↔ (links = left ∧ names.reverse ++ base = l) ∧ Fit names ∧ Directories fs base names := by
  -- Each name moves the base down, and below it there is no link, either.
  induction names generalizing base with
  | nil => simp [enter, Fit, Directories, eq_comm]
  | cons name rest ih =>
      have further := ih (linkless.within (List.suffix_cons name base))
      rw [directories_cons, List.map_cons, enter]
      by_cases long : nameLimit < name.bytes.length
      · simp [Fit, long]
      · rw [if_neg long]
        cases stands : fs.get? (name :: base) with
        | none => simp
        | some object =>
            cases object with
            | directory =>
                simp only [further]
                simp [Fit, Nat.le_of_not_lt long]
            | link target => exact absurd stands (linkless _ target (List.suffix_cons name base))
            | file content mode => simp
            | pipe => simp

/-- What is found below a root without links, wherever the path leads otherwise. -/
theorem stat_descend_iff (linkless : Linkless fs root)
    (leads : ∀ {left l}, fs.reach false p = .ok (left, l) → l = root) {name : Name} {l : Location}
    {object : Object} :
    fs.stat (p.descend (names ++ [name])) = .ok (l, object)
      ↔ Straight fs p root (names ++ [name]) ∧ Directories fs root names
        ∧ l = name :: (names.reverse ++ root) ∧ fs.get? l = some object := by
  have path : p.descend (names ++ [name]) = (p.descend names).child name :=
    (p.child_descend names name).symm
  have below : root <:+ name :: (names.reverse ++ root) :=
    (List.suffix_append names.reverse root).trans (List.suffix_cons name _)
  have fit : Fit (names ++ [name]) ↔ Fit names ∧ name.bytes.length ≤ nameLimit := by
    simp [Fit, or_imp, forall_and]
  have unlinked : ∀ target, fs.get? (name :: (names.reverse ++ root)) ≠ some (.link target) :=
    fun target => linkless _ target below
  -- Both sides need that the directory above is entered.
  rw [path]
  constructor
  · intro found
    obtain ⟨good, left, here, entered⟩ := reach_of_stat_child found
    obtain ⟨⟨links, l'⟩, first⟩ := reach_of_descend entered
    obtain rfl := leads first
    have down := entered
    rw [reach_descend, first] at down
    obtain ⟨⟨-, rfl⟩, fits, directories⟩ := (enter_down_iff linkless).mp down
    obtain ⟨short, rfl, stands⟩ := (stat_child_iff good entered unlinked).mp found
    exact ⟨⟨path ▸ good, fit.mpr ⟨fits, short⟩, links, first⟩, directories, rfl, stands⟩
  · rintro ⟨⟨good, fits, left, first⟩, directories, rfl, stands⟩
    obtain ⟨fits, short⟩ := fit.mp fits
    have entered : fs.reach false (p.descend names) = .ok (left, names.reverse ++ root) := by
      rw [reach_descend, first]
      exact (enter_down_iff linkless).mpr ⟨⟨rfl, rfl⟩, fits, directories⟩
    exact (stat_child_iff (path ▸ good) entered unlinked).mpr ⟨short, rfl, stands⟩

namespace Footing

variable (footing : Footing fs p root)

include footing

theorem unlinked : Unlinked fs p := by
  intro left l reached
  obtain ⟨links, again⟩ := footing.rooted.reach
  obtain rfl := reach_unique again reached
  exact footing.linkless

theorem eq_root {left : Nat} {l : Location} (reached : fs.reach true p = .ok (left, l)) : l = root := by
  obtain ⟨links, again⟩ := footing.rooted.reach
  exact reach_unique again reached

theorem below_of_inside {l : Location} (inside : Inside fs p names l) :
    Location.Below (names.reverse ++ root) l := by
  obtain ⟨left, base, reached, below⟩ := inside
  rwa [footing.eq_root reached] at below

/-- What is found below the root. -/
theorem stat_descend {name : Name} {l : Location} {object : Object} :
    fs.stat (p.descend (names ++ [name])) = .ok (l, object)
      ↔ Straight fs p root (names ++ [name]) ∧ Directories fs root names
        ∧ l = name :: (names.reverse ++ root) ∧ fs.get? l = some object :=
  stat_descend_iff footing.linkless footing.rooted.eq_of_reach

/-- Whatever works below the root keeps the footing. -/
theorem spares (spares : Spares p ns fs after) : Footing after p root where
  rooted := by
    refine footing.rooted.grown ⟨spares.current, fun l outside => ?_⟩
    have away : ¬ Inside fs p ns l := fun inside =>
      outside ((footing.below_of_inside inside).trans_suffix (List.suffix_append ns.reverse root))
    exact (spares.kept l away).imp_right fun ⟨nothing, directory, _⟩ => ⟨nothing, directory⟩
  linkless := by
    obtain ⟨left, reached⟩ := footing.rooted.reach
    exact spares.linkless left root reached

/-- What stands where nothing was worked on is there afterwards. -/
theorem still_there (spares : Spares p ns fs after) {l : Location}
    (outside : ¬ Location.Below (ns.reverse ++ root) l) {object : Object}
    (stands : fs.get? l = some object) : after.get? l = some object := by
  rcases spares.kept l fun inside => outside (footing.below_of_inside inside) with same | ⟨nothing, -⟩
  · exact same.trans stands
  · rw [nothing] at stands
    cases stands

/-- What is neither there nor on the way is as it was. -/
theorem same (spares : Spares p ns fs after) {l : Location} (below : Location.Below root l)
    (outside : ¬ Location.Below (ns.reverse ++ root) l) (away : ¬ l <:+ ns.reverse ++ root) :
    after.get? l = fs.get? l := by
  rcases spares.kept l fun inside => outside (footing.below_of_inside inside) with
    same | ⟨-, -, makes | ⟨left, base, up, rest, reached, rfl, -, rfl⟩⟩
  · exact same
  · exact absurd makes (footing.rooted.not_makes below)
  · -- A new directory is on the way down.
    obtain rfl := footing.eq_root reached
    refine absurd ?_ away
    rw [List.reverse_append, List.append_assoc]
    exact List.suffix_append rest.reverse _

theorem entered (spares : Spares p ns fs after) {left : Nat}
    (entered : fs.reach false p = .ok (left, root)) : after.reach false p = .ok (left, root) := by
  refine footing.rooted.enters entered spares.current fun l object outside stands => ?_
  refine footing.still_there spares (fun below => outside ?_) stands
  exact below.trans_suffix (List.suffix_append ns.reverse root)

theorem directories (spares : Spares p ns fs after)
    (outside : ¬ Location.Below (ns.reverse ++ root) (names.reverse ++ root))
    (directories : Directories fs root names) : Directories after root names := by
  intro up rest parts some
  refine footing.still_there spares (fun below => outside ?_) (directories up rest parts some)
  refine below.suffix ?_
  rw [parts, List.reverse_append, List.append_assoc]
  exact List.suffix_append rest.reverse _

/-- What is found is found as long as all that stands on the way is there. -/
theorem stat_kept (later : Footing after p root)
    (enters : ∀ {left}, fs.reach false p = .ok (left, root) → after.reach false p = .ok (left, root))
    {name : Name} {l : Location} {object : Object}
    (kept : ∀ {m other}, m <:+ l → fs.get? m = some other → after.get? m = some other)
    (found : fs.stat (p.descend (names ++ [name])) = .ok (l, object)) :
    after.stat (p.descend (names ++ [name])) = .ok (l, object) := by
  obtain ⟨⟨spelled, fit, left, entered⟩, directories, rfl, stands⟩ := footing.stat_descend.mp found
  refine later.stat_descend.mpr
    ⟨⟨spelled, fit, left, enters entered⟩, ?_, rfl, kept (List.suffix_refl _) stands⟩
  intro up rest parts some
  refine kept ?_ (directories up rest parts some)
  rw [parts, List.reverse_append, List.append_assoc]
  exact (List.suffix_append rest.reverse _).trans (List.suffix_cons name _)

omit footing in
/-- The same objects give the same footing. -/
theorem agrees (footing : Footing fs p root) (agrees : Agrees fs after) : Footing after p root where
  rooted := footing.rooted.grown ⟨agrees.current, fun l _ => Or.inl (agrees.objects l)⟩
  linkless := by
    intro l target within stands
    rw [agrees.objects] at stands
    exact footing.linkless l target within stands

end Footing

/-! ## Work aside -/

/-- What is beside a place is not above or below it, and neither is what is below. -/
theorem not_suffix_of_beside {b c l : Location} (notAbove : ¬ c <:+ b) (notBelow : ¬ b <:+ c)
    (within : b <:+ l) : ¬ c <:+ l :=
  fun also => (List.suffix_or_suffix_of_suffix within also).elim notBelow notAbove

/-- Below the root, nothing changed but at one place, below it, and on the way there. -/
structure Aside (p : Path) (root place : Location) (fs after : FileSystem) : Prop where
  footing : Footing after p root
  entered : ∀ {left}, fs.reach false p = .ok (left, root) → after.reach false p = .ok (left, root)
  still : ∀ {l object}, ¬ place <:+ l → fs.get? l = some object → after.get? l = some object
  same : ∀ {l}, Location.Below root l → ¬ place <:+ l → ¬ l <:+ place → after.get? l = fs.get? l

namespace Aside

variable {place : Location}

theorem trans (first : Aside p root place fs mid) (second : Aside p root place mid after) :
    Aside p root place fs after where
  footing := second.footing
  entered := fun reached => second.entered (first.entered reached)
  still := fun beside stands => second.still beside (first.still beside stands)
  same := fun below beside away =>
    (second.same below beside away).trans (first.same below beside away)

/-- What is found elsewhere is found afterwards. -/
theorem stat (aside : Aside p root place fs after) (footing : Footing fs p root) {name : Name}
    {l : Location} {object : Object} (beside : ¬ place <:+ l)
    (found : fs.stat (p.descend (names ++ [name])) = .ok (l, object)) :
    after.stat (p.descend (names ++ [name])) = .ok (l, object) :=
  footing.stat_kept aside.footing aside.entered
    (fun within => aside.still fun above => beside (above.trans within)) found

/-- What is found there afterwards, in a directory that was there, was found before. -/
theorem stat_back (aside : Aside p root place fs after) (footing : Footing fs p root) {name : Name}
    {l : Location} {object : Object} (beside : ¬ place <:+ l) (away : ¬ l <:+ place)
    (entered : ∃ left, fs.reach false p = .ok (left, root)) (directories : Directories fs root names)
    (found : after.stat (p.descend (names ++ [name])) = .ok (l, object)) :
    fs.stat (p.descend (names ++ [name])) = .ok (l, object) := by
  obtain ⟨⟨spelled, fit, -⟩, -, rfl, stands⟩ := aside.footing.stat_descend.mp found
  have below : Location.Below root (name :: (names.reverse ++ root)) :=
    (Location.below_cons name _).trans_suffix (List.suffix_append names.reverse root)
  rw [aside.same below beside away] at stands
  exact footing.stat_descend.mpr ⟨⟨spelled, fit, entered⟩, directories, rfl, stands⟩

end Aside

/-- Whatever works below some names works aside of all else. -/
theorem Footing.aside (footing : Footing fs p root) (spares : Spares p ns fs after) :
    Aside p root (ns.reverse ++ root) fs after where
  footing := footing.spares spares
  entered := footing.entered spares
  still := fun beside => footing.still_there spares fun below => beside below.1
  same := fun below beside away => footing.same spares below (fun inside => beside inside.1) away

/-- A file is put in one place. -/
theorem Footing.aside_set (footing : Footing fs p root) {place : Location}
    (below : Location.Below root place) (bytes : Bytes) (mode : Nat) :
    Aside p root place fs (fs.set place (.file bytes mode)) := by
  obtain ⟨left, reached⟩ := footing.rooted.reach
  have begun : Spares p [] fs fs := .refl footing.unlinked
  have spares := begun.set reached below (by simp : ∀ target, Object.file bytes mode ≠ .link target)
  have elsewhere : ∀ {l}, ¬ place <:+ l → (fs.set place (.file bytes mode)).get? l = fs.get? l := by
    intro l beside
    rw [get?_set _ _ _ _ below.ne_nil, if_neg]
    rintro rfl
    exact beside (List.suffix_refl l)
  exact
    { footing := footing.spares spares
      entered := footing.entered spares
      still := fun beside stands => (elsewhere beside).trans stands
      same := fun _ beside _ => elsewhere beside }

end FileSystem
end StackSynth
