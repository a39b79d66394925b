import StackSynth.FileSystem.Query
import StackSynth.Proofs.Action
import StackSynth.Proofs.Path

/-!
# Resolve — walks in parts

A walk along `front ++ back` is a walk through `front`, all of it directories, and then a walk
along `back` from where that ends.  `FileSystem.enter` is the first part.  It can be told to be
lenient, and then passes a missing name as if an empty directory stood there: so it finds where a
path will lead once the missing directories are made.

* `FileSystem.walk_append`, `enter_append` — a walk in two parts;
* `FileSystem.reach` — where a path enters, and with how many links left;
* `FileSystem.stat_eq_directory_iff` — a path leads to a directory if and only if it can be entered;
* `FileSystem.readFile_ok_iff` — what can be read at the end of a path;
* `FileSystem.locate_child` — a child is looked up where the directory was entered.
-/

namespace StackSynth
namespace FileSystem

variable {fs : FileSystem}

/-! ## Entering -/

/-- Walks through directories only, and gives the links that are left with the last of them.  A
lenient walk passes missing names. -/
def enter (fs : FileSystem) (lenient : Bool) (links : Nat) (here : Location) :
    List Path.Step → Except Fault (Nat × Location)
  | [] => .ok (links, here)
  | .stay :: rest => enter fs lenient links here rest
  | .up :: rest => enter fs lenient links here.tail rest
  | .down name :: rest =>
      if nameLimit < name.bytes.length then .error .nameTooLong
      else
        match fs.get? (name :: here) with
        | none => if lenient then enter fs lenient links (name :: here) rest else .error .notFound
        | some .directory => enter fs lenient links (name :: here) rest
        | some (.link target) =>
            match links with
            | 0 => .error .tooManyLinks
            | links + 1 =>
                enter fs lenient links (origin here target) (stepsOf target ++ rest)
        | some _ => .error .notDirectory
termination_by steps => (links, steps.length)

theorem enter_append (fs : FileSystem) (lenient : Bool) (links : Nat) (here : Location)
    (front back : List Path.Step) :
    enter fs lenient links here (front ++ back)
      = (enter fs lenient links here front).bind fun at' => enter fs lenient at'.1 at'.2 back := by
  fun_induction enter fs lenient links here front with
  | case1 => rfl
  | case2 links here rest ih => simpa [enter] using ih
  | case3 links here rest ih => simpa [enter] using ih
  | case4 links here name rest long => simp [enter, long, Except.bind]
  | case5 links here name rest long found lax ih =>
      subst lax
      simpa [enter, long, found] using ih
  | case6 links here name rest long found strict => simp [enter, long, found, strict, Except.bind]
  | case7 links here name rest long found ih => simp [enter, long, found, ih]
  | case8 here name rest long target found => simp [enter, long, found, Except.bind]
  | case9 here name rest long target found links ih =>
      simp [enter, long, found, List.append_assoc] at ih ⊢
      exact ih
  | case10 links here name rest long object notDir notLink found =>
      cases object with
      | directory => exact (notDir rfl).elim
      | link target => exact (notLink target rfl).elim
      | file content mode => simp [enter, long, found, Except.bind]
      | pipe => simp [enter, long, found, Except.bind]

theorem walk_append (fs : FileSystem) (follow : Bool) (links : Nat) (here : Location)
    (front : List Path.Step) {back : List Path.Step} (more : back ≠ []) :
    walk fs follow links here (front ++ back)
      = (enter fs false links here front).bind fun at' => walk fs follow at'.1 at'.2 back := by
  have open' : ∀ rest : List Path.Step, (rest ++ back).isEmpty = false := by
    intro rest
    simp [more]
  fun_induction enter fs false links here front with
  | case1 => rfl
  | case2 links here rest ih => simpa [walk] using ih
  | case3 links here rest ih => simpa [walk] using ih
  | case4 links here name rest long => simp [walk, long, Except.bind]
  | case5 links here name rest long found lax ih => exact absurd lax (by decide)
  | case6 links here name rest long found strict =>
      simp [walk, long, found, open', Except.bind]
  | case7 links here name rest long found ih => simp [walk, long, found, ih]
  | case8 here name rest long target found => simp [walk, long, found, open', Except.bind]
  | case9 here name rest long target found links ih =>
      simp [walk, long, found, more, List.append_assoc] at ih ⊢
      exact ih
  | case10 links here name rest long object notDir notLink found =>
      cases object with
      | directory => exact (notDir rfl).elim
      | link target => exact (notLink target rfl).elim
      | file content mode => simp [walk, long, found, more, Except.bind]
      | pipe => simp [walk, long, found, more, Except.bind]

/-- A walk ends at a directory if and only if all of its steps can be entered. -/
theorem walk_eq_directory_iff (links : Nat) (here : Location) (steps : List Path.Step)
    (l : Location) :
    walk fs true links here steps = .ok ⟨l, some .directory⟩
      ↔ ∃ left, enter fs false links here steps = .ok (left, l) := by
  fun_induction enter fs false links here steps with
  | case1 => simp [walk]
  | case2 links here rest ih => simpa [walk] using ih
  | case3 links here rest ih => simpa [walk] using ih
  | case4 links here name rest long => simp [walk, long]
  | case5 links here name rest long found lax ih => exact absurd lax (by decide)
  | case6 links here name rest long found strict =>
      cases rest <;> simp [walk, long, found]
  | case7 links here name rest long found ih => simpa [walk, long, found] using ih
  | case8 here name rest long target found => simp [walk, long, found]
  | case9 here name rest long target found links ih => simpa [walk, long, found] using ih
  | case10 links here name rest long object notDir notLink found =>
      cases object with
      | directory => exact (notDir rfl).elim
      | link target => exact (notLink target rfl).elim
      | file content mode => cases rest <;> simp [walk, long, found]
      | pipe => cases rest <;> simp [walk, long, found]

theorem enter_stay (lenient : Bool) (links : Nat) (here : Location) (steps : List Path.Step) :
    enter fs lenient links here (steps ++ [.stay]) = enter fs lenient links here steps := by
  rw [enter_append]
  cases enter fs lenient links here steps with
  | error fault => rfl
  | ok at' => simp [Except.bind, enter]

/-! ## Paths -/

/-- Where a path enters, with the links that are left. -/
def reach (fs : FileSystem) (lenient : Bool) (p : Path) : Except Fault (Nat × Location) :=
  enter fs lenient linkLimit (origin fs.current p) p.steps

theorem reach_unique {lenient : Bool} {p : Path} {left left' : Nat} {l l' : Location}
    (reached : fs.reach lenient p = .ok (left, l)) (again : fs.reach lenient p = .ok (left', l')) :
    l' = l :=
  (Prod.mk.inj (Except.ok.inj (again.symm.trans reached))).2

theorem enter_stepsOf (lenient : Bool) (links : Nat) (here : Location) (p : Path) :
    enter fs lenient links here (stepsOf p) = enter fs lenient links here p.steps := by
  unfold stepsOf
  split
  · exact enter_stay lenient links here p.steps
  · rfl

theorem reach_child (lenient : Bool) (p : Path) (name : Name) :
    fs.reach lenient (p.child name)
      = (fs.reach lenient p).bind fun at' => enter fs lenient at'.1 at'.2 [.down name] := by
  have from' : origin fs.current (p.child name) = origin fs.current p := by
    simp [origin, Path.child_isAbsolute]
  rw [reach, reach, from', Path.steps_child, enter_append]

theorem stepsOf_child (p : Path) (name : Name) :
    stepsOf (p.child name) = p.steps ++ [.down name] := by
  simp [stepsOf, Path.child_wantsDirectory, Path.steps_child]

/-- A spelling without zeros, which is not too long. -/
def WellSpelled (p : Path) : Prop :=
  0 ∉ p.bytes ∧ p.bytes.length < pathLimit

theorem misspelled?_eq_none_iff {p : Path} :
    misspelled? p = none ↔ WellSpelled p ∧ p.isEmpty = false := by
  unfold misspelled? WellSpelled
  by_cases zero : 0 ∈ p.bytes
  · simp [zero]
  · by_cases empty : p.isEmpty = true
    · simp [zero, empty]
    · by_cases long : pathLimit ≤ p.bytes.length
      · simp [zero, empty, long]
      · simp [zero, empty, long, Nat.lt_of_not_le long]

theorem misspelled?_child {p : Path} {name : Name} (good : WellSpelled (p.child name)) :
    misspelled? (p.child name) = none :=
  misspelled?_eq_none_iff.mpr ⟨good, p.child_not_empty name⟩

theorem locate_child (follow : Bool) {p : Path} {name : Name}
    (good : WellSpelled (p.child name)) :
    fs.locate follow (p.child name)
      = (fs.reach false p).bind fun at' => walk fs follow at'.1 at'.2 [.down name] := by
  have from' : origin fs.current (p.child name) = origin fs.current p := by
    simp [origin, Path.child_isAbsolute]
  rw [locate, misspelled?_child good]
  show walk fs follow linkLimit (origin fs.current (p.child name)) (stepsOf (p.child name)) = _
  rw [from', stepsOf_child, walk_append _ _ _ _ _ (by simp)]
  rfl

/-- What a path leads to is found by a walk that ends there. -/
theorem stat_eq_ok_iff {p : Path} {l : Location} {object : Object} :
    fs.stat p = .ok (l, object) ↔ fs.locate true p = .ok ⟨l, some object⟩ := by
  unfold stat
  cases found : fs.locate true p with
  | error fault => simp [bind, Except.bind]
  | ok place =>
      obtain ⟨at', object'⟩ := place
      cases object' <;> simp [bind, Except.bind, pure, Except.pure, throw, throwThe,
        MonadExceptOf.throw]

theorem locate_eq_ok_iff {p : Path} {follow : Bool} {place : Place} :
    fs.locate follow p = .ok place
      ↔ (WellSpelled p ∧ p.isEmpty = false)
        ∧ walk fs follow linkLimit (origin fs.current p) (stepsOf p) = .ok place := by
  rw [← misspelled?_eq_none_iff, locate]
  cases misspelled? p <;> simp

theorem stat_eq_directory_iff {p : Path} {l : Location} :
    fs.stat p = .ok (l, .directory)
      ↔ (WellSpelled p ∧ p.isEmpty = false) ∧ ∃ left, fs.reach false p = .ok (left, l) := by
  rw [stat_eq_ok_iff, locate_eq_ok_iff, walk_eq_directory_iff, enter_stepsOf]
  rfl

theorem exists_iff {p : Path} : fs.exists? p = true ↔ ∃ place, fs.stat p = .ok place := by
  unfold exists?
  cases fs.stat p <;> simp

theorem isDirectory_iff {p : Path} :
    fs.isDirectory p = true ↔ ∃ l, fs.stat p = .ok (l, .directory) := by
  unfold isDirectory
  split
  · rename_i l found
    simp [found]
  · rename_i other
    constructor
    · intro false
      cases false
    · rintro ⟨l, found⟩
      exact absurd found (other l)

/-- Links are followed to their end. -/
theorem stat_not_link {p : Path} {l : Location} {target : Path} :
    fs.stat p ≠ .ok (l, .link target) := by
  have never : ∀ {follow links here steps}, follow = true →
      walk fs follow links here steps ≠ .ok ⟨l, some (.link target)⟩ := by
    intro follow links here steps following
    fun_induction walk fs follow links here steps <;> grind
  exact fun found => never rfl (locate_eq_ok_iff.mp (stat_eq_ok_iff.mp found)).2

/-! ## Reading -/

/-- What reading an object gives: what a file holds that may be read, and nothing of a pipe. -/
inductive Reads : Object → Bytes → Nat → Prop
  | file {content : Bytes} {mode : Nat} (canRead : readable mode = true) :
      Reads (.file content mode) content mode
  | pipe : Reads .pipe [] 0o644

theorem readFile_ok_iff {p : Path} {content : Bytes} {mode : Nat} :
    fs.readFile p = .ok (content, mode)
      ↔ ∃ l object, fs.stat p = .ok (l, object) ∧ Reads object content mode := by
  constructor
  · intro read
    obtain ⟨⟨l, object⟩, found, inner⟩ := bind_eq_ok_iff.mp read
    refine ⟨l, object, found, ?_⟩
    cases object with
    | file content mode =>
        simp only at inner
        split at inner
        · next canRead =>
          cases inner
          exact .file canRead
        · cases inner
    | directory => cases inner
    | link target => exact absurd found stat_not_link
    | pipe =>
        cases inner
        exact .pipe
  · rintro ⟨l, object, found, reads⟩
    rw [readFile, found]
    cases reads with
    | file canRead => simp [bind, Except.bind, canRead, pure, Except.pure]
    | pipe => rfl

theorem readFile_of_stat {p : Path} {l : Location} {content : Bytes} {mode : Nat}
    (found : fs.stat p = .ok (l, .file content mode)) (canRead : readable mode = true) :
    fs.readFile p = .ok (content, mode) :=
  readFile_ok_iff.mpr ⟨l, _, found, .file canRead⟩

theorem read_ok_iff {p : Path} {content : Bytes} :
    fs.read p = .ok content ↔ ∃ mode, fs.readFile p = .ok (content, mode) := by
  constructor
  · intro read
    obtain ⟨⟨_, mode⟩, found, same⟩ := bind_eq_ok_iff.mp read
    cases same
    exact ⟨mode, found⟩
  · rintro ⟨mode, found⟩
    exact bind_eq_ok_iff.mpr ⟨_, found, rfl⟩

theorem read_of_stat {p : Path} {l : Location} {content : Bytes} {mode : Nat}
    (found : fs.stat p = .ok (l, .file content mode)) (canRead : readable mode = true) :
    fs.read p = .ok content :=
  read_ok_iff.mpr ⟨mode, readFile_of_stat found canRead⟩

/-! ## Children -/

/-- What stands below an entered directory, for each kind of thing that a name can lead to. -/
theorem stat_child {p : Path} {name : Name} {left : Nat} {l : Location}
    (good : WellSpelled (p.child name)) (entered : fs.reach false p = .ok (left, l)) :
    fs.stat (p.child name)
      = (walk fs true left l [.down name]).bind fun place =>
          match place.object with
          | some object => .ok (place.location, object)
          | none => .error .notFound := by
  rw [stat, locate_child true good, entered]
  rfl

/-- Unless a link stands there, whatever stands there is found. -/
theorem stat_child_iff {p : Path} {name : Name} {left : Nat} {here l : Location} {object : Object}
    (good : WellSpelled (p.child name)) (entered : fs.reach false p = .ok (left, here))
    (unlinked : ∀ target, fs.get? (name :: here) ≠ some (.link target)) :
    fs.stat (p.child name) = .ok (l, object)
      ↔ name.bytes.length ≤ nameLimit ∧ l = name :: here ∧ fs.get? l = some object := by
  rw [stat_child good entered, walk]
  by_cases long : nameLimit < name.bytes.length
  · simp [long, Nat.not_le.mpr long, Except.bind]
  · have short := Nat.le_of_not_lt long
    rw [if_neg long]
    cases stands : fs.get? (name :: here) with
    | none =>
        simp only [Except.bind, List.isEmpty_nil, if_true, reduceCtorEq, short, true_and, false_iff,
          not_and]
        rintro rfl
        simp [stands]
    | some other =>
        cases other with
        | link target => exact absurd stands (unlinked target)
        | directory | file content mode | pipe =>
            simp only [walk, Except.bind, List.isEmpty_nil, if_true, short, true_and, Except.ok.injEq,
              Prod.mk.injEq]
            constructor
            · rintro ⟨rfl, rfl⟩
              exact ⟨rfl, stands⟩
            · rintro ⟨rfl, same⟩
              exact ⟨rfl, Option.some.inj (stands.symm.trans same)⟩

/-- A directory was entered on the way to everything that is found below it. -/
theorem reach_of_stat_child {p : Path} {name : Name} {found : Location × Object}
    (ok : fs.stat (p.child name) = .ok found) :
    WellSpelled (p.child name) ∧ ∃ left l, fs.reach false p = .ok (left, l) := by
  obtain ⟨l, object⟩ := found
  have located := locate_eq_ok_iff.mp (stat_eq_ok_iff.mp ok)
  refine ⟨located.1.1, ?_⟩
  have parts := stat_eq_ok_iff.mp ok
  rw [locate_child true located.1.1] at parts
  cases entered : fs.reach false p with
  | error fault => simp [entered, Except.bind] at parts
  | ok at' => exact ⟨at'.1, at'.2, rfl⟩

theorem WellSpelled.of_child {p : Path} {name : Name} (good : WellSpelled (p.child name)) :
    WellSpelled p := by
  have longer := p.length_lt_child name
  refine ⟨fun zero => good.1 ((p.zero_mem_child name).mpr zero), ?_⟩
  have limited := good.2
  omega

/-- The directory itself is found there, if its path is spelled at all. -/
theorem stat_of_stat_child {p : Path} {name : Name} {found : Location × Object}
    (ok : fs.stat (p.child name) = .ok found) (some : p.isEmpty = false) :
    ∃ l, fs.stat p = .ok (l, .directory) := by
  obtain ⟨good, left, l, entered⟩ := reach_of_stat_child ok
  exact ⟨l, stat_eq_directory_iff.mpr ⟨⟨good.of_child, some⟩, left, entered⟩⟩

end FileSystem
end StackSynth
