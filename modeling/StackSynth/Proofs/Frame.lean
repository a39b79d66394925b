import StackSynth.Proofs.FileSystem
import StackSynth.Proofs.Resolve

/-!
# Frame — what a look-up does not notice

A look-up sees only the objects that it passes.  Whatever is found is found again after more was
put where nothing stood; and a lenient walk, which takes a missing name for a directory, does not
notice directories that are made or removed as long as they are empty.

* `FileSystem.Agrees`, `Extends`, `Grown` — the same objects, more objects, more directories;
* `FileSystem.enter_extends`, `walk_extends`, `stat_extends`, `readFile_extends`;
* `FileSystem.enter_grown` — a lenient walk ends at the same place;
* `FileSystem.Rooted` — a path leads to a root whatever is below that root.
-/

namespace StackSynth

namespace FileSystem

variable {fs mid after : FileSystem}

/-! ## Relations -/

/-- The same objects at the same places. -/
structure Agrees (fs after : FileSystem) : Prop where
  current : after.current = fs.current
  objects : ∀ l, after.get? l = fs.get? l

/-- Whatever stood still stands. -/
structure Extends (fs after : FileSystem) : Prop where
  current : after.current = fs.current
  objects : ∀ {l object}, fs.get? l = some object → after.get? l = some object

/-- Whatever can be walked through can still be. -/
structure Passes (fs after : FileSystem) : Prop where
  current : after.current = fs.current
  directories : ∀ {l}, fs.get? l = some .directory → after.get? l = some .directory
  links : ∀ {l target}, fs.get? l = some (.link target) → after.get? l = some (.link target)

/-- Nothing but directories was added. -/
structure Grown (fs after : FileSystem) : Prop extends Extends fs after where
  added : ∀ {l object}, fs.get? l = none → after.get? l = some object → object = .directory

/-- Nothing but directories was added, except below `root`, where anything may differ. -/
structure GrownOutside (root : Location) (fs after : FileSystem) : Prop where
  current : after.current = fs.current
  outside : ∀ l, ¬ Location.Below root l →
    after.get? l = fs.get? l ∨ fs.get? l = none ∧ after.get? l = some .directory

theorem Agrees.refl (fs : FileSystem) : Agrees fs fs := ⟨rfl, fun _ => rfl⟩

theorem Agrees.symm (agrees : Agrees fs after) : Agrees after fs :=
  ⟨agrees.current.symm, fun l => (agrees.objects l).symm⟩

theorem Agrees.trans (first : Agrees fs mid) (second : Agrees mid after) : Agrees fs after :=
  ⟨second.current.trans first.current, fun l => (second.objects l).trans (first.objects l)⟩

theorem Agrees.extends (agrees : Agrees fs after) : Extends fs after :=
  ⟨agrees.current, fun stands => (agrees.objects _).trans stands⟩

theorem Extends.refl (fs : FileSystem) : Extends fs fs := ⟨rfl, fun stands => stands⟩

theorem Extends.trans (first : Extends fs mid) (second : Extends mid after) : Extends fs after :=
  ⟨second.current.trans first.current, fun stands => second.objects (first.objects stands)⟩

theorem Extends.passes (extends' : Extends fs after) : Passes fs after :=
  ⟨extends'.current, extends'.objects, extends'.objects⟩

theorem Agrees.grown (agrees : Agrees fs after) : Grown fs after where
  toExtends := agrees.extends
  added none stands := by rw [agrees.objects, none] at stands; cases stands

theorem Grown.refl (fs : FileSystem) : Grown fs fs := (Agrees.refl fs).grown

theorem Grown.get? (grown : Grown fs after) (l : Location) :
    after.get? l = fs.get? l ∨ fs.get? l = none ∧ after.get? l = some .directory := by
  cases stood : fs.get? l with
  | some object => exact Or.inl (grown.objects stood)
  | none =>
      cases stands : after.get? l with
      | none => exact Or.inl rfl
      | some object => exact Or.inr ⟨rfl, by rw [grown.added stood stands]⟩

theorem Grown.trans (first : Grown fs mid) (second : Grown mid after) : Grown fs after where
  toExtends := first.toExtends.trans second.toExtends
  added := by
    intro l object none stands
    rcases second.get? l with same | ⟨-, directory⟩
    · exact first.added none (same ▸ stands)
    · exact (Option.some.inj (directory.symm.trans stands)).symm

theorem Grown.outside (grown : Grown fs after) (root : Location) : GrownOutside root fs after :=
  ⟨grown.current, fun l _ => grown.get? l⟩

theorem GrownOutside.refl (root : Location) (fs : FileSystem) : GrownOutside root fs fs :=
  (Grown.refl fs).outside root

theorem GrownOutside.trans {root : Location} (first : GrownOutside root fs mid)
    (second : GrownOutside root mid after) : GrownOutside root fs after where
  current := second.current.trans first.current
  outside := by
    intro l away
    rcases second.outside l away with same | ⟨none, directory⟩
    · rw [same]
      exact first.outside l away
    · rcases first.outside l away with same | ⟨_, directory'⟩
      · exact Or.inr ⟨same ▸ none, directory⟩
      · rw [none] at directory'
        cases directory'

/-! ## Walks -/

/-- Whatever a walk finds, it finds again where more stands. -/
theorem walk_extends (extends' : Extends fs after) {follow : Bool} {links : Nat} {here l : Location}
    {steps : List Path.Step} {object : Object}
    (found : walk fs follow links here steps = .ok ⟨l, some object⟩) :
    walk after follow links here steps = .ok ⟨l, some object⟩ := by
  fun_induction walk fs follow links here steps with
  | case1 => simpa [walk] using found
  | case2 links here rest ih => simpa [walk] using ih found
  | case3 links here rest ih => simpa [walk] using ih found
  | case4 links here name rest long => simp at found
  | case5 links here name rest long stands last => simp at found
  | case6 links here name rest long stands more => simp at found
  | case7 links here name rest long stands ih =>
      simpa [walk, long, extends'.objects stands] using ih found
  | case8 links here name rest long target stands last =>
      simpa [walk, long, extends'.objects stands, last] using found
  | case9 here name rest long target stands more => simp at found
  | case10 here name rest long target stands more links ih =>
      simpa [walk, long, extends'.objects stands, more] using ih found
  | case11 links here name rest long other notDir notLink stands last =>
      have stands' := extends'.objects stands
      cases other with
      | directory => exact (notDir rfl).elim
      | link target => exact (notLink target rfl).elim
      | file content mode => simpa [walk, long, stands', last] using found
      | pipe => simpa [walk, long, stands', last] using found
  | case12 links here name rest long other notDir notLink stands more => simp at found

/-- A walk that gets through gets to the same place where all that it passes can be passed; to a
lenient walk, this is also what does not stand. -/
theorem enter_carried (passes : Passes fs after) {lenient lenient' : Bool}
    (absent : lenient = true → lenient' = true ∧ ∀ l, fs.get? l = none → after.get? l = none)
    {links left : Nat} {here l : Location} {steps : List Path.Step}
    (through : enter fs lenient links here steps = .ok (left, l)) :
    enter after lenient' links here steps = .ok (left, l) := by
  fun_induction enter fs lenient links here steps with
  | case1 => simpa [enter] using through
  | case2 links here rest ih => simpa [enter] using ih through
  | case3 links here rest ih => simpa [enter] using ih through
  | case4 links here name rest long => simp at through
  | case5 links here name rest long stands lax ih =>
      obtain ⟨lax', nothing⟩ := absent lax
      simpa [enter, long, nothing _ stands, lax'] using ih through
  | case6 links here name rest long stands strict => simp at through
  | case7 links here name rest long stands ih =>
      simpa [enter, long, passes.directories stands] using ih through
  | case8 here name rest long target stands => simp at through
  | case9 here name rest long target stands links ih =>
      simpa [enter, long, passes.links stands] using ih through
  | case10 links here name rest long object notDir notLink stands => simp at through

theorem enter_passes (passes : Passes fs after) {links left : Nat} {here l : Location}
    {steps : List Path.Step} (through : enter fs false links here steps = .ok (left, l)) :
    enter after false links here steps = .ok (left, l) :=
  enter_carried passes (fun lax => absurd lax (by decide)) through

/-- A strict walk that gets through is a lenient one too. -/
theorem enter_lenient {links left : Nat} {here l : Location} {steps : List Path.Step}
    (through : enter fs false links here steps = .ok (left, l)) :
    enter fs true links here steps = .ok (left, l) :=
  enter_carried (Extends.refl fs).passes (fun lax => absurd lax (by decide)) through

/-- To a lenient walk it is all the same whether a directory stands somewhere or nothing. -/
theorem enter_grown (grown : Grown fs after) (links : Nat) (here : Location)
    (steps : List Path.Step) :
    enter after true links here steps = enter fs true links here steps := by
  fun_induction enter fs true links here steps with
  | case1 => simp [enter]
  | case2 links here rest ih => simpa [enter] using ih
  | case3 links here rest ih => simpa [enter] using ih
  | case4 links here name rest long => simp [enter, long]
  | case5 links here name rest long stands lax ih =>
      rcases grown.get? (name :: here) with same | ⟨-, directory⟩
      · simpa [enter, long, same, stands] using ih
      · simpa [enter, long, directory] using ih
  | case6 links here name rest long stands strict => exact absurd rfl strict
  | case7 links here name rest long stands ih =>
      simpa [enter, long, grown.objects stands] using ih
  | case8 here name rest long target stands => simp [enter, long, grown.objects stands]
  | case9 here name rest long target stands links ih =>
      simpa [enter, long, grown.objects stands] using ih
  | case10 links here name rest long object notDir notLink stands =>
      have stands' := grown.objects stands
      cases object <;> simp_all [enter]

/-- A file stands at `t`, and everything else is the same. -/
structure FileAt (t : Location) (fs after : FileSystem) : Prop where
  current : after.current = fs.current
  file : ∃ content mode, after.get? t = some (.file content mode)
  others : ∀ l, l ≠ t → after.get? l = fs.get? l

theorem fileAt_set {t : Location} (inside : t ≠ []) (content : Bytes) (mode : Nat) :
    FileAt t fs (fs.set t (.file content mode)) where
  current := rfl
  file := ⟨content, mode, by rw [get?_set _ _ _ _ inside, if_pos rfl]⟩
  others := by
    intro l other
    rw [get?_set _ _ _ _ inside, if_neg other]

/-- Where no file stands now, nothing has changed. -/
theorem FileAt.before {t l : Location} (fileAt : FileAt t fs after)
    (other : ∀ content mode, after.get? l ≠ some (.file content mode)) :
    fs.get? l = after.get? l := by
  obtain ⟨content, mode, file⟩ := fileAt.file
  refine (fileAt.others l ?_).symm
  rintro rfl
  exact other content mode file

theorem FileAt.passes {t : Location} (fileAt : FileAt t fs after) : Passes after fs where
  current := fileAt.current.symm
  directories stands := (fileAt.before (by simp [stands])).trans stands
  links stands := (fileAt.before (by simp [stands])).trans stands

/-- A file in the way can only stop a walk. -/
theorem FileAt.enter {t : Location} (fileAt : FileAt t fs after) {lenient : Bool}
    {links left : Nat} {here there : Location} {steps : List Path.Step}
    (through : enter after lenient links here steps = .ok (left, there)) :
    enter fs lenient links here steps = .ok (left, there) :=
  enter_carried fileAt.passes
    (fun lax => ⟨lax, fun _ stands => (fileAt.before (by simp [stands])).trans stands⟩) through

theorem FileAt.reach {t : Location} (fileAt : FileAt t fs after) {lenient : Bool} {p : Path}
    {at' : Nat × Location} (reached : after.reach lenient p = .ok at') :
    fs.reach lenient p = .ok at' := by
  unfold FileSystem.reach at reached ⊢
  rw [← fileAt.current]
  exact fileAt.enter reached

/-! ## Paths -/

theorem stat_extends (extends' : Extends fs after) {p : Path} {found : Location × Object}
    (ok : fs.stat p = .ok found) : after.stat p = .ok found := by
  obtain ⟨l, object⟩ := found
  have located := locate_eq_ok_iff.mp (stat_eq_ok_iff.mp ok)
  refine stat_eq_ok_iff.mpr (locate_eq_ok_iff.mpr ⟨located.1, ?_⟩)
  rw [extends'.current]
  exact walk_extends extends' located.2

theorem readFile_extends (extends' : Extends fs after) {p : Path} {content : Bytes × Nat}
    (ok : fs.readFile p = .ok content) : after.readFile p = .ok content := by
  unfold readFile at ok ⊢
  cases found : fs.stat p with
  | error fault => simp [found, bind, Except.bind] at ok
  | ok place =>
      rw [stat_extends extends' found]
      simpa [found] using ok

theorem reach_passes (passes : Passes fs after) {p : Path} {at' : Nat × Location}
    (ok : fs.reach false p = .ok at') : after.reach false p = .ok at' := by
  unfold reach at ok ⊢
  rw [passes.current]
  exact enter_passes passes ok

theorem reach_extends (extends' : Extends fs after) {p : Path} {at' : Nat × Location}
    (ok : fs.reach false p = .ok at') : after.reach false p = .ok at' :=
  reach_passes extends'.passes ok

theorem reach_grown (grown : Grown fs after) (p : Path) :
    after.reach true p = fs.reach true p := by
  unfold reach
  rw [grown.current]
  exact enter_grown grown _ _ _

/-! ## Roots -/

/-- The path leads to `root`, whatever is put below it and whichever directories are made. -/
def Rooted (fs : FileSystem) (p : Path) (root : Location) : Prop :=
  ∀ after, GrownOutside root fs after → ∃ left, after.reach true p = .ok (left, root)

theorem Rooted.reach {p : Path} {root : Location} (rooted : Rooted fs p root) :
    ∃ left, fs.reach true p = .ok (left, root) :=
  rooted fs (GrownOutside.refl root fs)

/-- Whoever enters the path is at the root. -/
theorem Rooted.eq_of_reach {p : Path} {root l : Location} (rooted : Rooted fs p root) {left : Nat}
    (entered : fs.reach false p = .ok (left, l)) : l = root := by
  obtain ⟨links, reached⟩ := rooted.reach
  exact reach_unique reached (enter_lenient entered)

theorem Rooted.grown {p : Path} {root : Location} (rooted : Rooted fs p root)
    (grown : GrownOutside root fs after) : Rooted after p root :=
  fun _ more => rooted _ (grown.trans more)

end FileSystem
end StackSynth
