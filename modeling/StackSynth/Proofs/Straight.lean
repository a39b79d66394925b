import StackSynth.Proofs.CreateAll

/-!
# Straight — below a root without links

Where nothing but directories and files stands, names lead straight down.  A path with such a
place as its root leads there whatever stands below, and more names lead further down.

* `FileSystem.Plain` — nothing but directories and files;
* `FileSystem.Plain.reach_descend` — where a path further down leads;
* `FileSystem.Rooted.makes_descend` — which directories such a path makes;
* `FileSystem.Rooted.enters` — whoever enters the root does not notice what is below.
-/

namespace StackSynth

namespace Path

theorem steps_descend (p : Path) (names : List Name) :
    (p.descend names).steps = p.steps ++ names.map .down := by
  induction names generalizing p with
  | nil => simp
  | cons name rest ih => simp [ih, steps_child]

theorem isAbsolute_descend (p : Path) (names : List Name) :
    (p.descend names).isAbsolute = p.isAbsolute := by
  induction names generalizing p with
  | nil => rfl
  | cons name rest ih => rw [descend_cons, ih, child_isAbsolute]

theorem isEmpty_descend {p : Path} (filled : p.isEmpty = false) (names : List Name) :
    (p.descend names).isEmpty = false := by
  induction names generalizing p with
  | nil => exact filled
  | cons name rest ih => exact ih (p.child_not_empty name)

end Path

namespace FileSystem

variable {fs after : FileSystem} {base : Location}

theorem reach_descend (fs : FileSystem) (lenient : Bool) (p : Path) (names : List Name) :
    fs.reach lenient (p.descend names)
      = (fs.reach lenient p).bind fun at' => enter fs lenient at'.1 at'.2 (names.map .down) := by
  simp only [reach, origin, Path.isAbsolute_descend, Path.steps_descend, enter_append]

/-- Whoever gets down from a path gets there first. -/
theorem reach_of_descend {lenient : Bool} {p : Path} {names : List Name} {at' : Nat × Location}
    (reached : fs.reach lenient (p.descend names) = .ok at') :
    ∃ first, fs.reach lenient p = .ok first := by
  rw [reach_descend] at reached
  cases known : fs.reach lenient p with
  | error fault => simp [known, Except.bind] at reached
  | ok first => exact ⟨first, rfl⟩

/-! ## Straight down -/

/-- Below `base` are only directories and regular files. -/
def Plain (fs : FileSystem) (base : Location) : Prop :=
  ∀ l object, Location.Below base l → fs.get? l = some object →
    object = .directory ∨ ∃ content mode, object = .file content mode

theorem Plain.inside (plain : Plain fs base) {mid : Location} (within : base <:+ mid) :
    Plain fs mid :=
  fun l object below stands => plain l object (below.trans_suffix within) stands

theorem Plain.grown (plain : Plain fs base) (grown : Grown fs after) : Plain after base := by
  intro l object below stands
  rcases grown.get? l with same | ⟨-, directory⟩
  · exact plain l object below (same ▸ stands)
  · exact Or.inl (Option.some.inj (directory.symm.trans stands)).symm

/-- The operating system takes all of these names. -/
def Fit (names : List Name) : Prop :=
  ∀ name ∈ names, name.bytes.length ≤ nameLimit

/-- On the way from `base` through some names are only directories and regular files. -/
def PlainAlong (fs : FileSystem) (base : Location) (names : List Name) : Prop :=
  ∀ up rest, names = up ++ rest → up ≠ [] → ∀ object, fs.get? (up.reverse ++ base) = some object →
    object = .directory ∨ ∃ content mode, object = .file content mode

theorem Plain.along (plain : Plain fs base) {here : Location} (within : base <:+ here)
    (names : List Name) : PlainAlong fs here names := by
  intro up rest parts some object stands
  have below : Location.Below here (up.reverse ++ here) :=
    Location.below_iff.mpr ⟨up.reverse, by simpa using some, rfl⟩
  exact plain _ object (below.trans_suffix within) stands

/-- It is enough to know the first object and what is below it. -/
theorem PlainAlong.cons {name : Name} (first : fs.get? (name :: base) = some .directory)
    (plain : Plain fs (name :: base)) (names : List Name) : PlainAlong fs base (name :: names) := by
  intro up rest parts some object stands
  obtain ⟨head, up, rfl⟩ := List.exists_cons_of_ne_nil some
  obtain ⟨rfl, rfl⟩ := List.cons.inj parts
  rw [List.reverse_cons, List.append_assoc, List.singleton_append] at stands
  cases up with
  | nil =>
      rw [List.reverse_nil, List.nil_append, first] at stands
      exact Or.inl (Option.some.inj stands).symm
  | cons next up =>
      exact plain _ object (Location.below_iff.mpr ⟨(next :: up).reverse, by simp, rfl⟩) stands

theorem PlainAlong.front {up rest : List Name} (along : PlainAlong fs base (up ++ rest)) :
    PlainAlong fs base up :=
  fun first others parts => along first (others ++ rest) (by rw [parts, List.append_assoc])

/-- Where no link is on the way, names lead straight down. -/
theorem enter_down {names : List Name} {here : Location}
    (unlinked : ∀ up rest target, names = up ++ rest → up ≠ [] →
      fs.get? (up.reverse ++ here) ≠ some (.link target))
    {lenient : Bool} {links left : Nat} {l : Location}
    (through : enter fs lenient links here (names.map .down) = .ok (left, l)) :
    left = links ∧ l = names.reverse ++ here ∧ Fit names := by
  induction names generalizing here with
  | nil =>
      rw [List.map_nil, FileSystem.enter] at through
      cases through
      simp [Fit]
  | cons name rest ih =>
      -- What was assumed of all the names holds of the rest behind the first.
      have further : ∀ up more target, rest = up ++ more → up ≠ [] →
          fs.get? (up.reverse ++ name :: here) ≠ some (.link target) := by
        intro up more target parts some
        simpa using unlinked (name :: up) more target (by rw [parts]; rfl) (by simp)
      rw [List.map_cons, FileSystem.enter] at through
      by_cases long : nameLimit < name.bytes.length
      · simp [long] at through
      · have fits := Nat.le_of_not_lt long
        rw [if_neg long] at through
        cases stands : fs.get? (name :: here) with
        | none =>
            cases lenient with
            | false => simp [stands] at through
            | true =>
                simp only [stands, if_true] at through
                simpa [Fit, fits] using ih further through
        | some object =>
            cases object with
            | directory =>
                simp only [stands] at through
                simpa [Fit, fits] using ih further through
            | link target => exact absurd stands (unlinked [name] rest target rfl (by simp))
            | file content mode => simp [stands] at through
            | pipe => simp [stands] at through

theorem PlainAlong.enter {names : List Name} {here : Location} (along : PlainAlong fs here names)
    {lenient : Bool} {links left : Nat} {l : Location}
    (through : enter fs lenient links here (names.map .down) = .ok (left, l)) :
    left = links ∧ l = names.reverse ++ here ∧ Fit names := by
  refine enter_down (fun up rest target parts some stands => ?_) through
  rcases along up rest parts some _ stands with same | ⟨_, _, same⟩ <;> cases same

theorem Plain.enter (plain : Plain fs base) {names : List Name} {lenient : Bool} {links left : Nat}
    {here l : Location} (within : base <:+ here)
    (through : enter fs lenient links here (names.map .down) = .ok (left, l)) :
    left = links ∧ l = names.reverse ++ here ∧ Fit names :=
  (plain.along within names).enter through

theorem PlainAlong.reach_descend {names : List Name} (along : PlainAlong fs base names) {p : Path}
    {lenient : Bool} {left links : Nat} {l : Location}
    (entered : fs.reach lenient p = .ok (links, base))
    (reached : fs.reach lenient (p.descend names) = .ok (left, l)) : l = names.reverse ++ base := by
  rw [FileSystem.reach_descend, entered] at reached
  exact (along.enter reached).2.1

/-- Where a path below `base` leads. -/
theorem Plain.reach_descend (plain : Plain fs base) {p : Path} {names : List Name}
    {lenient : Bool} {left links : Nat} {l : Location}
    (entered : fs.reach lenient p = .ok (links, base))
    (reached : fs.reach lenient (p.descend names) = .ok (left, l)) : l = names.reverse ++ base :=
  (plain.along (List.suffix_refl base) names).reach_descend entered reached

theorem Plain.fit_of_reach (plain : Plain fs base) {p : Path} {names : List Name} {lenient : Bool}
    {links : Nat} {at' : Nat × Location} (entered : fs.reach lenient p = .ok (links, base))
    (reached : fs.reach lenient (p.descend names) = .ok at') : Fit names := by
  rw [FileSystem.reach_descend, entered] at reached
  exact (plain.enter (List.suffix_refl base) reached).2.2

/-- Directories are entered name by name. -/
theorem enter_directories (well : fs.WellFormed) (lenient : Bool) (links : Nat) {here : Location}
    {names : List Name} (fit : Fit names) (stands : fs.get? (names.reverse ++ here) = some .directory) :
    enter fs lenient links here (names.map .down) = .ok (links, names.reverse ++ here) := by
  induction names generalizing here with
  | nil => simp [FileSystem.enter]
  | cons name rest ih =>
      simp only [Fit, List.forall_mem_cons] at fit
      have place : (name :: rest).reverse ++ here = rest.reverse ++ name :: here := by simp
      rw [place] at stands ⊢
      have above : fs.get? (name :: here) = some .directory := by
        cases known : rest.reverse with
        | nil => simpa [known] using stands
        | cons last front =>
            refine well.directory_above ?_ stands
            exact Location.below_iff.mpr ⟨rest.reverse, by simp [known], rfl⟩
      rw [List.map_cons, FileSystem.enter, if_neg (Nat.not_lt_of_le fit.1), above]
      exact ih fit.2 stands

/-- What is passed by a walk that gets through stands. -/
theorem Makes.stands_of_reach {p : Path} {l : Location} {at' : Nat × Location}
    (makes : Makes fs p l) (entered : fs.reach false p = .ok at') : fs.get? l ≠ none := by
  obtain ⟨front, name, back, left, here, steps, rfl, through⟩ := makes
  rw [reach, steps, enter_append] at entered
  cases first : FileSystem.enter fs false linkLimit (origin fs.current p) front with
  | error fault => simp [first, Except.bind] at entered
  | ok place =>
      obtain ⟨links, there⟩ := place
      have same := enter_lenient first
      rw [through] at same
      cases same
      simp only [first, Except.bind, FileSystem.enter] at entered
      intro nothing
      split at entered
      · cases entered
      · simp [nothing] at entered

/-- A path that is entered already makes nothing. -/
theorem Made.agrees {p : Path} {at' : Nat × Location} (made : Made p fs after)
    (entered : fs.reach false p = .ok at') : Agrees fs after where
  current := made.grown.current
  objects := by
    intro l
    rcases made.grown.get? l with same | ⟨nothing, directory⟩
    · exact same
    · exact absurd nothing ((made.places l nothing directory).stands_of_reach entered)

/-- What a path further down makes is made by the path itself, or below where it leads. -/
theorem Makes.of_descend {p : Path} {names : List Name} {l : Location}
    (makes : Makes fs (p.descend names) l) :
    Makes fs p l ∨ ∃ at' up name rest links here, fs.reach true p = .ok at'
      ∧ names = up ++ name :: rest ∧ l = name :: here
      ∧ enter fs true at'.1 at'.2 (up.map .down) = .ok (links, here) := by
  obtain ⟨front, name, back, links, here, steps, rfl, through⟩ := makes
  have from' : origin fs.current (p.descend names) = origin fs.current p := by
    simp [origin, Path.isAbsolute_descend]
  rw [from'] at through
  rw [Path.steps_descend] at steps
  -- The step down to the new directory belongs to `p` or to the names.
  rcases List.append_eq_append_iff.mp steps with ⟨more, front', rest⟩ | ⟨more, steps', rest⟩
  · obtain ⟨up, down, rfl, rfl, tail⟩ := List.map_eq_append_iff.mp rest
    obtain ⟨next, down', rfl, isName, -⟩ := List.map_eq_cons_iff.mp tail
    cases isName
    rw [front', enter_append] at through
    cases reached : fs.reach true p with
    | error fault =>
        rw [reach] at reached
        simp [reached, Except.bind] at through
    | ok at' =>
        rw [reach] at reached
        rw [reached] at through
        exact Or.inr ⟨at', up, name, down', links, here, rfl, rfl, rfl, through⟩
  · cases more with
    | nil =>
        simp only [List.append_nil, List.nil_append] at steps' rest
        obtain ⟨next, down', rfl, isName, -⟩ := List.map_eq_cons_iff.mp rest.symm
        cases isName
        refine Or.inr ⟨(links, here), [], name, down', links, here, ?_, rfl, rfl, by simp [enter]⟩
        rw [reach, steps', through]
    | cons step more =>
        obtain ⟨rfl, -⟩ : .down name = step ∧ _ := List.cons.inj rest
        exact Or.inl ⟨front, name, more, links, here, steps', rfl, through⟩

/-- Below a place that a path leads to, directories are made on the way down. -/
theorem makes_descend_cases {p : Path} {names : List Name} (along : PlainAlong fs base names)
    {left : Nat} {l : Location} (reached : fs.reach true p = .ok (left, base))
    (makes : Makes fs (p.descend names) l) :
    Makes fs p l ∨ ∃ up rest, names = up ++ rest ∧ up ≠ [] ∧ l = up.reverse ++ base := by
  rcases makes.of_descend with own | ⟨at', up, name, rest, links, here, first, parts, rfl, through⟩
  · exact Or.inl own
  · obtain rfl := Except.ok.inj (reached.symm.trans first)
    subst parts
    obtain ⟨-, rfl, -⟩ := along.front.enter through
    exact Or.inr ⟨up ++ [name], rest, by simp, by simp, by simp⟩

theorem makes_descend {p : Path} {names : List Name} (along : PlainAlong fs base names) {left : Nat}
    {l : Location} (entered : fs.reach false p = .ok (left, base))
    (makes : Makes fs (p.descend names) l) (nothing : fs.get? l = none) :
    ∃ up rest, names = up ++ rest ∧ up ≠ [] ∧ l = up.reverse ++ base := by
  rcases makes_descend_cases along (enter_lenient entered) makes with own | further
  · exact absurd nothing (own.stands_of_reach entered)
  · exact further

/-! ## Roots -/

variable {root : Location} {p : Path}

/-- A single name in the current directory leads to a root. -/
theorem Rooted.of_name {name : Name} (steps : p.steps = [.down name]) (relative : p.isAbsolute = false)
    (fits : name.bytes.length ≤ nameLimit)
    (free : fs.get? (name :: fs.current) = none ∨ fs.get? (name :: fs.current) = some .directory) :
    Rooted fs p (name :: fs.current) := by
  intro after grown
  have stands : after.get? (name :: fs.current) = none
      ∨ after.get? (name :: fs.current) = some .directory := by
    rcases grown.outside _ fun below => below.2 rfl with same | ⟨-, directory⟩
    · rwa [same]
    · exact Or.inr directory
  have first : origin after.current p = fs.current := by
    rw [grown.current, origin, relative]
    rfl
  refine ⟨linkLimit, ?_⟩
  rw [FileSystem.reach, steps, first]
  rcases stands with none | directory
  · simp [FileSystem.enter, Nat.not_lt_of_le fits, none]
  · simp [FileSystem.enter, Nat.not_lt_of_le fits, directory]

/-- A path that leads to a root whatever stands below it makes nothing there. -/
theorem Rooted.not_makes (rooted : Rooted fs p root) {l : Location} (below : Location.Below root l) :
    ¬ Makes fs p l := by
  rintro ⟨front, name, back, left, here, steps, rfl, through⟩
  -- Were there a file, the path would not lead to the root.
  have fileAt : FileAt (name :: here) fs (fs.set (name :: here) (.file [] 0)) :=
    fileAt_set (List.cons_ne_nil name here) [] 0
  have outside : GrownOutside root fs (fs.set (name :: here) (.file [] 0)) := by
    refine ⟨rfl, fun m away => Or.inl (fileAt.others m ?_)⟩
    rintro rfl
    exact away below
  obtain ⟨links, reached⟩ := rooted _ outside
  rw [FileSystem.reach, steps, enter_append] at reached
  cases first : enter (fs.set (name :: here) (.file [] 0)) true linkLimit (origin fs.current p)
      front with
  | error fault =>
      have origin' : origin (fs.set (name :: here) (.file [] 0)).current p = origin fs.current p := rfl
      simp [origin', first, Except.bind] at reached
  | ok place =>
      obtain ⟨links', here'⟩ := place
      have same := fileAt.enter first
      rw [through] at same
      cases same
      have origin' : origin (fs.set (name :: here) (.file [] 0)).current p = origin fs.current p := rfl
      rw [origin', first] at reached
      simp only [Except.bind, enter, get?_set _ _ _ _ (List.cons_ne_nil name here), if_true] at reached
      split at reached <;> cases reached

/-- Below the root, a path further down makes itself and what is above it at most. -/
theorem Rooted.makes_descend (rooted : Rooted fs p root) (plain : Plain fs root)
    {names : List Name} {l : Location} (below : Location.Below root l)
    (makes : Makes fs (p.descend names) l) :
    ∃ up rest, names = up ++ rest ∧ up ≠ [] ∧ l = up.reverse ++ root := by
  obtain ⟨left, reached⟩ := rooted.reach
  have along := plain.along (List.suffix_refl root) names
  exact (makes_descend_cases along reached makes).resolve_left (rooted.not_makes below)

theorem Rooted.makes_child (rooted : Rooted fs p root) (plain : Plain fs root) {name : Name}
    {l : Location} (below : Location.Below root l) (makes : Makes fs (p.child name) l) :
    l = name :: root := by
  have down : Makes fs (p.descend [name]) l := makes
  obtain ⟨up, rest, parts, some, rfl⟩ := rooted.makes_descend plain below down
  rcases List.append_eq_singleton_iff.mp parts.symm with ⟨rfl, -⟩ | ⟨rfl, -⟩
  · exact absurd rfl some
  · rfl

/-- When a directory further down has been made, the root and the directory are entered. -/
theorem Rooted.createAll_ok (rooted : Rooted fs p root) (plain : Plain fs root) (sound : Sound fs)
    {names : List Name} (some : names ≠ []) (run : createAll (p.descend names) fs = .ok () after) :
    (∃ left, after.reach false p = .ok (left, root))
      ∧ ∃ left, after.reach false (p.descend names) = .ok (left, names.reverse ++ root) := by
  have made := createAll_made sound (Or.inl ⟨_, run⟩)
  have plain' := plain.grown made.grown
  have filled : (p.descend names).isEmpty = false := by
    obtain ⟨name, rest, rfl⟩ := List.exists_cons_of_ne_nil some
    exact Path.isEmpty_descend (p.child_not_empty name) rest
  obtain ⟨l, found⟩ := FileSystem.createAll_ok filled run
  obtain ⟨-, left, reached⟩ := stat_eq_directory_iff.mp found
  obtain ⟨⟨links, l'⟩, entered⟩ := reach_of_descend reached
  obtain rfl := (rooted.grown (made.grown.outside root)).eq_of_reach entered
  obtain rfl := plain'.reach_descend entered reached
  exact ⟨⟨links, entered⟩, left, reached⟩

/-- A regular file somewhere below `root` stops the walk, even a lenient one, or whatever is there
does not matter to it. -/
def StoppedOrFree (fs : FileSystem) (root : Location) (links : Nat) (here : Location)
    (steps : List Path.Step) (left : Nat) (l : Location) : Prop :=
  (∃ m fault, Location.Below root m
    ∧ enter (fs.set m (.file [] 0)) true links here steps = .error fault)
  ∨ ∀ after : FileSystem, (∀ m object, ¬ Location.Below root m → fs.get? m = some object →
      after.get? m = some object) → enter after false links here steps = .ok (left, l)

/-- One step passes it on: the file may take the place of the object that is passed, and an object
that is not below `root` stays. -/
theorem StoppedOrFree.step {root here here' l : Location} {links links' left : Nat} {name : Name}
    {rest rest' : List Path.Step} {object : Object} (short : ¬ nameLimit < name.bytes.length)
    (stands : fs.get? (name :: here) = some object)
    (passes : ∀ {other : FileSystem} {lenient}, other.get? (name :: here) = some object →
      enter other lenient links here (.down name :: rest) = enter other lenient links' here' rest')
    (further : StoppedOrFree fs root links' here' rest' left l) :
    StoppedOrFree fs root links here (.down name :: rest) left l := by
  by_cases below : Location.Below root (name :: here)
  · exact Or.inl ⟨name :: here, .notDirectory, below, by simp [enter, short, get?_set]⟩
  · refine further.imp ?_ ?_
    · rintro ⟨m, fault, inside, failed⟩
      have other : name :: here ≠ m := fun same => below (same ▸ inside)
      have stays : (fs.set m (.file [] 0)).get? (name :: here) = some object := by
        rw [get?_set _ _ _ _ inside.ne_nil, if_neg other, stands]
      exact ⟨m, fault, inside, (passes stays).trans failed⟩
    · intro free after kept
      exact (passes (kept _ _ below stands)).trans (free after kept)

theorem enter_without (root : Location) {links left : Nat} {here l : Location}
    {steps : List Path.Step} (through : enter fs false links here steps = .ok (left, l)) :
    StoppedOrFree fs root links here steps left l := by
  fun_induction enter fs false links here steps with
  | case1 links here => exact Or.inr fun after kept => by simpa [enter] using through
  | case2 links here rest ih => simpa only [StoppedOrFree, enter] using ih through
  | case3 links here rest ih => simpa only [StoppedOrFree, enter] using ih through
  | case4 links here name rest long => cases through
  | case5 links here name rest long stands lax ih => exact absurd lax (by decide)
  | case6 links here name rest long stands strict => cases through
  | case7 links here name rest short stands ih =>
      exact .step short stands (fun there => by simp [enter, short, there]) (ih through)
  | case8 here name rest long target stands => cases through
  | case9 here name rest short target stands links ih =>
      exact .step short stands (fun there => by simp [enter, short, there]) (ih through)
  | case10 links here name rest long object notDirectory notLink stands => cases through

/-- Changes below a root do not matter to whoever enters it. -/
theorem Rooted.enters (rooted : Rooted fs p root) {left : Nat}
    (entered : fs.reach false p = .ok (left, root)) (current : after.current = fs.current)
    (kept : ∀ m object, ¬ Location.Below root m → fs.get? m = some object →
      after.get? m = some object) : after.reach false p = .ok (left, root) := by
  rcases enter_without root entered with ⟨m, fault, below, failed⟩ | others
  · -- With a file there, the path would not lead to the root.
    have outside : GrownOutside root fs (fs.set m (.file [] 0)) := by
      refine ⟨rfl, fun l away => Or.inl ?_⟩
      rw [get?_set _ _ _ _ below.ne_nil, if_neg]
      rintro rfl
      exact away below
    obtain ⟨links, reached⟩ := rooted _ outside
    have same : FileSystem.reach (fs.set m (.file [] 0)) true p = .error fault := failed
    rw [same] at reached
    cases reached
  · rw [FileSystem.reach, current]
    exact others after kept

/-! ## Look-up -/

/-- A path below the root is taken as it stands, and its names lead down. -/
structure Straight (fs : FileSystem) (p : Path) (root : Location) (names : List Name) : Prop where
  spelled : WellSpelled (p.descend names)
  fit : Fit names
  entered : ∃ left, fs.reach false p = .ok (left, root)

theorem Plain.locate_descend (plain : Plain fs root)
    (leads : ∀ {left l}, fs.reach false p = .ok (left, l) → l = root)
    {names : List Name} (some : names ≠ []) {follow : Bool} {place : Place}
    (ok : fs.locate follow (p.descend names) = .ok place) :
    Straight fs p root names
      ∧ place = ⟨names.reverse ++ root, fs.get? (names.reverse ++ root)⟩ := by
  obtain ⟨front, last, rfl⟩ : ∃ front last, names = front ++ [last] :=
    ⟨_, _, (List.dropLast_concat_getLast some).symm⟩
  -- The walk to the last name is the walk to its directory and one more step.
  have spelled := (locate_eq_ok_iff.mp ok).1.1
  have path : p.descend (front ++ [last]) = (p.descend front).child last :=
    (p.child_descend front last).symm
  rw [path, locate_child follow (path ▸ spelled), FileSystem.reach_descend] at ok
  cases entered : fs.reach false p with
  | error fault => simp [entered, Except.bind] at ok
  | ok at' =>
      obtain ⟨left, l⟩ := at'
      obtain rfl := leads entered
      cases down : FileSystem.enter fs false left l (front.map .down) with
      | error fault => simp [entered, down, Except.bind] at ok
      | ok at' =>
          obtain ⟨links, here⟩ := at'
          obtain ⟨-, rfl, fit⟩ := plain.enter (List.suffix_refl l) down
          have place' : (front ++ [last]).reverse ++ l = last :: (front.reverse ++ l) := by simp
          simp only [entered, down, Except.bind] at ok
          rw [place']
          unfold walk at ok
          by_cases long : nameLimit < last.bytes.length
          · simp [long] at ok
          · have fits : Fit (front ++ [last]) := by
              intro name member
              rcases List.mem_append.mp member with member | member
              · exact fit name member
              · obtain rfl := List.mem_singleton.mp member
                exact Nat.le_of_not_lt long
            refine ⟨⟨spelled, fits, left, entered⟩, ?_⟩
            have below : Location.Below l (last :: (front.reverse ++ l)) :=
              Location.below_iff.mpr ⟨last :: front.reverse, by simp, rfl⟩
            rw [if_neg long] at ok
            cases stands : fs.get? (last :: (front.reverse ++ l)) with
            | none => simpa [stands, eq_comm] using ok
            | some object =>
                rcases plain _ object below stands with rfl | ⟨content, mode, rfl⟩
                · simpa [stands, walk, eq_comm] using ok
                · simpa [stands, eq_comm] using ok

/-- What a path below the root leads to. -/
theorem Plain.stat_descend (plain : Plain fs root)
    (leads : ∀ {left l}, fs.reach false p = .ok (left, l) → l = root)
    (well : fs.WellFormed) {names : List Name} (some : names ≠ []) {l : Location}
    {object : Object} :
    fs.stat (p.descend names) = .ok (l, object)
      ↔ Straight fs p root names ∧ l = names.reverse ++ root ∧ fs.get? l = .some object := by
  rw [stat_eq_ok_iff]
  constructor
  · intro ok
    obtain ⟨straight, place⟩ := plain.locate_descend leads some ok
    obtain ⟨rfl, found⟩ := Place.mk.inj place
    exact ⟨straight, rfl, found.symm⟩
  · rintro ⟨⟨spelled, fit, left, entered⟩, rfl, stands⟩
    obtain ⟨front, last, rfl⟩ : ∃ front last, names = front ++ [last] :=
      ⟨_, _, (List.dropLast_concat_getLast some).symm⟩
    have path : p.descend (front ++ [last]) = (p.descend front).child last :=
      (p.child_descend front last).symm
    have place : (front ++ [last]).reverse ++ root = last :: (front.reverse ++ root) := by simp
    have fits : last.bytes.length ≤ nameLimit := fit last (by simp)
    have below : Location.Below root (last :: (front.reverse ++ root)) :=
      Location.below_iff.mpr ⟨last :: front.reverse, by simp, rfl⟩
    rw [place] at stands ⊢
    have down := enter_directories well false left
      (fun name member => fit name (List.mem_append_left _ member))
      (well.parent _ _ _ stands)
    rw [path, locate_child true (path ▸ spelled), FileSystem.reach_descend, entered]
    simp only [Except.bind, down]
    rcases plain _ object below stands with rfl | ⟨content, mode, rfl⟩
    · simp [walk, Nat.not_lt_of_le fits, stands]
    · simp [walk, Nat.not_lt_of_le fits, stands]

theorem Rooted.locate_descend (rooted : Rooted fs p root) (plain : Plain fs root)
    {names : List Name} (some : names ≠ []) {follow : Bool} {place : Place}
    (ok : fs.locate follow (p.descend names) = .ok place) :
    Straight fs p root names
      ∧ place = ⟨names.reverse ++ root, fs.get? (names.reverse ++ root)⟩ :=
  plain.locate_descend (fun entered => rooted.eq_of_reach entered) some ok

theorem Rooted.stat_descend (rooted : Rooted fs p root) (plain : Plain fs root)
    (well : fs.WellFormed) {names : List Name} (some : names ≠ []) {l : Location}
    {object : Object} :
    fs.stat (p.descend names) = .ok (l, object)
      ↔ Straight fs p root names ∧ l = names.reverse ++ root ∧ fs.get? l = .some object :=
  plain.stat_descend (fun entered => rooted.eq_of_reach entered) well some

end FileSystem
end StackSynth
