import StackSynth.Proofs.Frame

/-!
# Looking — the places that a look-up looks at

A look-up reads one place after another, and what it finds at one of them tells where it looks
next.  So two file systems in which all of these places hold the same are the same to it, whatever
stands elsewhere.

* `FileSystem.Looks` — the places that a walk looks at;
* `FileSystem.LooksAt` — the same for a path;
* `FileSystem.walk_looks`, `locate_looks`, `stat_looks`, `readFile_looks`, `reach_looks` — look-ups
  that see the same are the same;
* `FileSystem.looksAt_child`, `LooksAt.of_child` — the places of a name in a directory.
-/

namespace StackSynth
namespace FileSystem

variable {fs after : FileSystem}

/-- The walk from `here` looks at the place. -/
inductive Looks (fs : FileSystem) : Nat → Location → List Path.Step → Location → Prop
  | stay {links : Nat} {here l : Location} {rest : List Path.Step} :
      Looks fs links here rest l → Looks fs links here (.stay :: rest) l
  | up {links : Nat} {here l : Location} {rest : List Path.Step} :
      Looks fs links here.tail rest l → Looks fs links here (.up :: rest) l
  | here {links : Nat} {here : Location} {name : Name} {rest : List Path.Step} :
      Looks fs links here (.down name :: rest) (name :: here)
  | down {links : Nat} {here l : Location} {name : Name} {rest : List Path.Step} :
      ¬ nameLimit < name.bytes.length → fs.get? (name :: here) = some .directory → Looks fs links (name :: here) rest l →
      Looks fs links here (.down name :: rest) l
  | cross {links : Nat} {here l : Location} {name : Name} {target : Path} {rest : List Path.Step} :
      ¬ nameLimit < name.bytes.length → fs.get? (name :: here) = some (.link target) →
      Looks fs links (origin here target) (stepsOf target ++ rest) l →
      Looks fs (links + 1) here (.down name :: rest) l

/-- The look-up of the path looks at the place. -/
def LooksAt (fs : FileSystem) (p : Path) (l : Location) : Prop :=
  Looks fs linkLimit (origin fs.current p) (stepsOf p) l

theorem walk_looks {follow : Bool} {links : Nat} {here : Location} {steps : List Path.Step}
    (same : ∀ l, Looks fs links here steps l → after.get? l = fs.get? l) :
    walk after follow links here steps = walk fs follow links here steps := by
  fun_induction walk fs follow links here steps with
  | case1 => simp [walk]
  | case2 links here rest ih => simpa [walk] using ih fun l looks => same l looks.stay
  | case3 links here rest ih => simpa [walk] using ih fun l looks => same l looks.up
  | case4 links here name rest long => simp [walk, long]
  | case5 links here name rest long found last => simp [walk, long, same _ .here, found, last]
  | case6 links here name rest long found more => simp [walk, long, same _ .here, found, more]
  | case7 links here name rest long found ih =>
      simpa [walk, long, same _ .here, found] using ih fun l looks => same l (.down long found looks)
  | case8 links here name rest long target found last =>
      simp [walk, long, same _ .here, found, last]
  | case9 here name rest long target found more => simp [walk, long, same _ .here, found, more]
  | case10 here name rest long target found more links ih =>
      simpa [walk, long, same _ .here, found, more] using
        ih fun l looks => same l (.cross long found looks)
  | case11 links here name rest long object notDir notLink found last =>
      have found' := (same _ .here).trans found
      cases object <;> simp_all [walk]
  | case12 links here name rest long object notDir notLink found more =>
      have found' := (same _ .here).trans found
      cases object <;> simp_all [walk]

section Paths

variable {p : Path} (current : after.current = fs.current)
  (same : ∀ l, LooksAt fs p l → after.get? l = fs.get? l)

include current same

theorem locate_looks (follow : Bool) : after.locate follow p = fs.locate follow p := by
  unfold locate
  rw [current, walk_looks same]

theorem stat_looks : after.stat p = fs.stat p := by
  unfold stat
  rw [locate_looks current same]

theorem readFile_looks : after.readFile p = fs.readFile p := by
  unfold readFile
  rw [stat_looks current same]

theorem read_looks : after.read p = fs.read p := by
  unfold read
  rw [readFile_looks current same]

/-- Whoever sees the same on the way gets to the same place. -/
theorem reach_looks {left : Nat} {l : Location} (reached : fs.reach false p = .ok (left, l)) :
    ∃ left', after.reach false p = .ok (left', l) := by
  have walked := (walk_eq_directory_iff _ _ _ _).mpr ⟨left, (enter_stepsOf _ _ _ p).trans reached⟩
  rw [← walk_looks same, ← current, walk_eq_directory_iff] at walked
  obtain ⟨left', again⟩ := walked
  exact ⟨left', (enter_stepsOf _ _ _ p).symm.trans again⟩

end Paths

/-- Whoever sees the same looks at the same places. -/
theorem Looks.other {links : Nat} {here l : Location} {steps : List Path.Step}
    (looks : Looks fs links here steps l)
    (same : ∀ l, Looks fs links here steps l → after.get? l = fs.get? l) :
    Looks after links here steps l := by
  induction looks with
  | stay _ ih => exact (ih fun l looks => same l looks.stay).stay
  | up _ ih => exact (ih fun l looks => same l looks.up).up
  | here => exact .here
  | down short found _ ih =>
      exact .down short ((same _ .here).trans found)
        (ih fun l looks => same l (.down short found looks))
  | cross short found _ ih =>
      exact .cross short ((same _ .here).trans found)
        (ih fun l looks => same l (.cross short found looks))

/-! ## Look-ups of children -/

theorem Looks.append_right {links left : Nat} {here there l : Location} {front back : List Path.Step}
    (through : enter fs false links here front = .ok (left, there))
    (looks : Looks fs left there back l) : Looks fs links here (front ++ back) l := by
  fun_induction enter fs false links here front with
  | case1 => cases through; exact looks
  | case2 links here rest ih => exact (ih through).stay
  | case3 links here rest ih => exact (ih through).up
  | case4 links here name rest long => cases through
  | case5 links here name rest long found lax ih => exact absurd lax (by decide)
  | case6 links here name rest long found strict => cases through
  | case7 links here name rest long found ih => exact .down long found (ih through)
  | case8 here name rest long target found => cases through
  | case9 here name rest long target found links ih =>
      refine .cross long found ?_
      simpa using ih through
  | case10 links here name rest long object notDir notLink found => cases through

theorem Looks.append_left {links : Nat} {here l : Location} {front : List Path.Step}
    (looks : Looks fs links here front l) (back : List Path.Step) :
    Looks fs links here (front ++ back) l := by
  induction looks with
  | stay _ ih => exact ih.stay
  | up _ ih => exact ih.up
  | here => exact .here
  | down short found _ ih => exact .down short found ih
  | cross short found _ ih =>
      refine .cross short found ?_
      simpa using ih

/-- A walk in two parts looks at the places of either part. -/
theorem Looks.append_cases {links : Nat} {here l : Location} {front back : List Path.Step}
    (looks : Looks fs links here (front ++ back) l) :
    Looks fs links here front l
      ∨ ∃ left there, enter fs false links here front = .ok (left, there)
        ∧ Looks fs left there back l := by
  -- The induction follows `enter`: where it stops, no place of the second part is reached.
  fun_induction enter fs false links here front with
  | case1 links here => exact Or.inr ⟨links, here, rfl, looks⟩
  | case2 links here rest ih =>
      cases looks with
      | stay inner => exact (ih inner).imp .stay id
  | case3 links here rest ih =>
      cases looks with
      | up inner => exact (ih inner).imp .up id
  | case4 links here name rest long =>
      cases looks with
      | here => exact Or.inl .here
      | down short _ _ => exact absurd long short
      | cross short _ _ => exact absurd long short
  | case5 links here name rest long found lax ih => exact absurd lax (by decide)
  | case6 links here name rest long found strict =>
      cases looks with
      | here => exact Or.inl .here
      | down _ found' _ => rw [found] at found'; cases found'
      | cross _ found' _ => rw [found] at found'; cases found'
  | case7 links here name rest long found ih =>
      cases looks with
      | here => exact Or.inl .here
      | down _ _ inner => exact (ih inner).imp (.down long found) id
      | cross _ found' _ => rw [found] at found'; cases found'
  | case8 here name rest long target found =>
      cases looks with
      | here => exact Or.inl .here
      | down _ found' _ => rw [found] at found'; cases found'
  | case9 here name rest long target found links ih =>
      cases looks with
      | here => exact Or.inl .here
      | down _ found' _ => rw [found] at found'; cases found'
      | cross _ found' inner =>
          rw [found] at found'
          cases found'
          have inner' : Looks fs links (origin here target) (stepsOf target ++ rest ++ back) l := by
            rw [List.append_assoc]
            exact inner
          exact (ih inner').imp (.cross long found) id
  | case10 links here name rest long object notDir notLink found =>
      cases looks with
      | here => exact Or.inl .here
      | down _ found' _ => rw [found] at found'; cases found'; exact (notDir rfl).elim
      | cross _ found' _ => rw [found] at found'; cases found'; exact (notLink _ rfl).elim

/-- The look-up of a child looks at its place. -/
theorem looksAt_child {p : Path} {name : Name} {left : Nat} {l : Location}
    (entered : fs.reach false p = .ok (left, l)) : LooksAt fs (p.child name) (name :: l) := by
  have from' : origin fs.current (p.child name) = origin fs.current p := by
    simp [origin, Path.child_isAbsolute]
  rw [LooksAt, from', stepsOf_child]
  exact .append_right entered .here

/-- Where no link stands, that is all it looks at beyond the directory's own path. -/
theorem LooksAt.of_child {p : Path} {name : Name} {left : Nat} {here l : Location}
    (entered : fs.reach false p = .ok (left, here))
    (unlinked : ∀ target, fs.get? (name :: here) ≠ some (.link target))
    (looks : LooksAt fs (p.child name) l) : LooksAt fs p l ∨ l = name :: here := by
  have from' : origin fs.current (p.child name) = origin fs.current p := by
    simp [origin, Path.child_isAbsolute]
  rw [LooksAt, from', stepsOf_child] at looks
  rcases looks.append_cases with front | ⟨left', there, entered', last⟩
  · left
    unfold LooksAt stepsOf
    split
    · exact front.append_left _
    · exact front
  · right
    obtain rfl := reach_unique entered' entered
    cases last with
    | here => rfl
    | down _ _ more => cases more
    | cross _ found _ => exact absurd found (unlinked _)

end FileSystem
end StackSynth
