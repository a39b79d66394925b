import StackSynth.Proofs.Identity

/-!
# Obstacles — what a listing stumbles over

A walk asks of every name whether it is that of a directory before it asks the rules whether to
leave it out.  The first question has no answer if the name is that of a link which leads nowhere,
or back to where the walk comes from; and what is not left out has to lead somewhere.  A walk fails
if it meets one of these, and for no other reason.

* `Listing.ahead`, `Listing.Dead` — the first question, and links without an answer;
* `Listing.Obstacle` — what a walk stumbles over at or below a name;
* `Listing.walk_ok_iff`, `collect_ok_iff` — without obstacles, a listing succeeds;
* `Packaging.hash_ok_iff` — a hash needs a listing, and files that can be read.
-/

namespace StackSynth

namespace Listing

open FileSystem

variable {fs : FileSystem} {rules : IgnoreRules} {root : Path} {here : Level} {outside : List Level}
  {above names : List Name} {name : Name}

/-! ## The first question -/

/-- A child is that of a directory, links followed. -/
def ahead (fs : FileSystem) (child : Location) (path : Path) : Bool :=
  match fs.get? child with
  | some .directory => true
  | some (.link _) => fs.isDirectory path
  | _ => false

/-- A link that leads nowhere, or to a directory that the walk is inside of. -/
def Dead (fs : FileSystem) (inside : List Level) (child : Location) (path : Path) : Prop :=
  (∃ target, fs.get? child = some (.link target))
    ∧ ((∃ fault, fs.stat path = .error fault)
      ∨ ∃ level ∈ inside, fs.stat path = .ok (level.location, .directory))

/-- Only of dead links it cannot be told whether they are directories. -/
theorem leadsToDirectory_cases (fs : FileSystem) (inside : List Level) (child : Location) (path : Path) :
    Dead fs inside child path ∧ (∃ failure, leadsToDirectory fs inside child path = .error failure)
      ∨ ¬ Dead fs inside child path
        ∧ leadsToDirectory fs inside child path = .ok (ahead fs child path) := by
  unfold leadsToDirectory ahead Dead
  cases stands : fs.get? child with
  | none => simp
  | some object =>
      cases object with
      | directory => simp
      | file content mode => simp
      | pipe => simp
      | link target =>
          cases found : fs.stat path with
          | error fault => simp
          | ok place =>
              obtain ⟨l, object⟩ := place
              cases object with
              | file content mode => simp [isDirectory, found]
              | pipe => simp [isDirectory, found]
              | link other => simp [isDirectory, found]
              | directory =>
                  -- A link to a directory is dead if the walk is inside of it already.
                  cases met : inside.find? fun level => level.location == l with
                  | none =>
                      right
                      have apart : ∀ level ∈ inside, level.location ≠ l := by
                        simpa using List.find?_eq_none.mp met
                      refine ⟨?_, by simp [met, isDirectory, found]⟩
                      rintro ⟨-, ⟨fault, wrong⟩ | ⟨level, member, same⟩⟩
                      · cases wrong
                      · exact apart level member (Prod.mk.inj (Except.ok.inj same)).1.symm
                  | some level =>
                      left
                      have same : level.location = l := by simpa using List.find?_some met
                      exact ⟨⟨⟨target, rfl⟩, Or.inr ⟨level, List.mem_of_find?_eq_some met, by rw [same]⟩⟩,
                        by simp [met]⟩

/-- What the first question is answered agrees with what the path leads to. -/
theorem ahead_eq {left : Nat} {l : Location} {object : Object}
    (entered : fs.reach false here.path = .ok (left, here.location))
    (found : fs.stat (here.path.child name) = .ok (l, object)) :
    ahead fs (name :: here.location) (here.path.child name) = decide (object = .directory) := by
  obtain ⟨good, -⟩ := reach_of_stat_child found
  have step := found
  rw [stat_child good entered, FileSystem.walk] at step
  unfold ahead
  split at step
  · simp [Except.bind] at step
  · cases stands : fs.get? (name :: here.location) with
    | none => simp [stands, Except.bind] at step
    | some kind =>
        cases kind with
        | directory =>
            simp [stands, FileSystem.walk, Except.bind] at step
            simp [← step.2]
        | file content mode =>
            simp [stands, Except.bind] at step
            simp [← step.2]
        | pipe =>
            simp [stands, Except.bind] at step
            simp [← step.2]
        | link target => cases object <;> simp [isDirectory, found]

/-! ## Obstacles -/

/-- The walk stumbles over something at or below the name. -/
inductive Obstacle (fs : FileSystem) (rules : IgnoreRules) :
    Level → List Level → List Name → Name → Prop
  | dead {here : Level} {outside : List Level} {above : List Name} {name : Name} :
      Dead fs (here :: outside) (name :: here.location) (here.path.child name) →
      Obstacle fs rules here outside above name
  | lost {here : Level} {outside : List Level} {above : List Name} {name : Name} {fault : Fault} :
      rules.ignores (relative (above ++ [name]))
        (ahead fs (name :: here.location) (here.path.child name)) = false →
      fs.stat (here.path.child name) = .error fault →
      Obstacle fs rules here outside above name
  | deeper {here : Level} {outside : List Level} {above : List Name} {name next : Name}
      {location : Location} :
      rules.ignores (relative (above ++ [name]))
        (ahead fs (name :: here.location) (here.path.child name)) = false →
      fs.stat (here.path.child name) = .ok (location, .directory) →
      next ∈ fs.children location →
      Obstacle fs rules ⟨location, here.path.child name⟩ (here :: outside) (above ++ [name]) next →
      Obstacle fs rules here outside above name

/-- Below what is left out there is no obstacle. -/
theorem not_obstacle_of_ignored
    (alive : ¬ Dead fs (here :: outside) (name :: here.location) (here.path.child name))
    (ignored : rules.ignores (relative (above ++ [name]))
      (ahead fs (name :: here.location) (here.path.child name)) = true) :
    ¬ Obstacle fs rules here outside above name := by
  intro obstacle
  cases obstacle with
  | dead dead => exact alive dead
  | lost kept _ => exact absurd ignored (by simp [kept])
  | deeper kept _ _ _ => exact absurd ignored (by simp [kept])

/-- What is found can only be an obstacle by what is below it. -/
theorem not_obstacle_of_found {l : Location} {object : Object}
    (alive : ¬ Dead fs (here :: outside) (name :: here.location) (here.path.child name))
    (found : fs.stat (here.path.child name) = .ok (l, object)) (other : object ≠ .directory) :
    ¬ Obstacle fs rules here outside above name := by
  intro obstacle
  cases obstacle with
  | dead dead => exact alive dead
  | lost _ missing =>
      rw [found] at missing
      cases missing
  | deeper _ found' _ _ =>
      rw [found] at found'
      cases found'
      exact other rfl

/-- In a directory that is kept, the obstacles are those among its children. -/
theorem obstacle_iff_of_directory {l : Location}
    (alive : ¬ Dead fs (here :: outside) (name :: here.location) (here.path.child name))
    (kept : rules.ignores (relative (above ++ [name]))
      (ahead fs (name :: here.location) (here.path.child name)) = false)
    (found : fs.stat (here.path.child name) = .ok (l, .directory)) :
    Obstacle fs rules here outside above name ↔ ∃ next ∈ fs.children l,
      Obstacle fs rules ⟨l, here.path.child name⟩ (here :: outside) (above ++ [name]) next := by
  constructor
  · intro obstacle
    cases obstacle with
    | dead dead => exact absurd dead alive
    | lost _ missing =>
        rw [found] at missing
        cases missing
    | deeper _ found' member below =>
        rw [found] at found'
        cases found'
        exact ⟨_, member, below⟩
  · rintro ⟨next, member, below⟩
    exact .deeper kept found member below

/-- A walk succeeds if and only if there is no obstacle at or below any of the names. -/
theorem walk_ok_iff : (∃ entries, walk fs rules here outside above names = .ok entries)
    ↔ ∀ name ∈ names, ¬ Obstacle fs rules here outside above name := by
  induction here, outside, above, names using walk.induct fs with
  | case1 here outside above => simp [walk]
  | case2 here outside above name rest path inside ihRest ihInner =>
      rw [List.forall_mem_cons, ← ihRest, walk_cons]
      simp only [path] at ihInner
      -- The cases are those of the walk: the first question, the rules, and what is found.
      rcases leadsToDirectory_cases fs (here :: outside) (name :: here.location)
          (here.path.child name) with ⟨dead, failure, told⟩ | ⟨alive, told⟩
      · simp only [told, bind, Except.bind]
        simp [Obstacle.dead dead]
      simp only [told, bind, Except.bind]
      by_cases ignored : rules.ignores (relative (above ++ [name]))
          (ahead fs (name :: here.location) (here.path.child name)) = true
      · rw [if_pos ignored]
        simp [not_obstacle_of_ignored alive ignored]
      have kept := Bool.eq_false_iff.mpr ignored
      rw [if_neg ignored]
      cases found : fs.stat (here.path.child name) with
      | error fault => simp [Obstacle.lost kept found]
      | ok place =>
          obtain ⟨l, object⟩ := place
          have clear : object ≠ .directory → ¬ Obstacle fs rules here outside above name :=
            not_obstacle_of_found alive found
          cases object with
          | file content mode =>
              cases walk fs rules here outside above rest <;> simp [clear, pure, Except.pure]
          | pipe => simp [clear]
          | link target => simp [clear]
          | directory =>
              have inner := ihInner l found
              rw [obstacle_iff_of_directory alive kept found, not_exists]
              simp only [not_and]
              rw [← inner]
              cases walk fs rules ⟨l, here.path.child name⟩ (here :: outside) (above ++ [name])
                  (fs.children l) <;> cases walk fs rules here outside above rest <;>
                simp [pure, Except.pure]

/-- The same of a whole listing, once its rules are read. -/
theorem collect_ok_iff {base : Location} (loaded : IgnoreRules.load fs root = .ok rules)
    (found : fs.stat root = .ok (base, .directory)) :
    (∃ entries, collect fs root = .ok entries)
      ↔ ∀ name ∈ fs.children base, ¬ Obstacle fs rules ⟨base, root⟩ [] [] name := by
  rw [← walk_ok_iff]
  simp only [collect, loaded, found, Except.mapError, bind, Except.bind]
  cases walk fs rules ⟨base, root⟩ [] [] (fs.children base) <;> simp [pure, Except.pure]

end Listing

namespace Packaging

open Listing

variable {fs : FileSystem} {rules : IgnoreRules} {root : Path} {type : AssetType}

/-- A directory can be hashed if and only if it can be listed and its files can be read. -/
theorem hash_ok_iff {base : Location} (well : fs.WellFormed) (wants : type.wantsDirectory = true)
    (loaded : IgnoreRules.load fs root = .ok rules)
    (found : fs.stat root = .ok (base, .directory)) :
    (∃ hash, Packaging.hash fs root type = .ok hash)
      ↔ (∀ name ∈ fs.children base, ¬ Obstacle fs rules ⟨base, root⟩ [] [] name)
        ∧ Readable fs rules root := by
  rw [← collect_ok_iff loaded found]
  constructor
  · rintro ⟨hash, told⟩
    cases listed : collect fs root with
    | error failure =>
        have checked := checkSource_directory wants found
        cases type with
        | file => cases wants
        | directory | archive =>
            simp [Packaging.hash, checked, listed, bind, Except.bind] at told
    | ok entries =>
        obtain ⟨paths, listing⟩ := isListing_of_collect well loaded listed
        obtain ⟨members, held⟩ := listing.exists_members
        exact ⟨⟨entries, rfl⟩, (((yields found listed listing held).hash type wants hash).mp told).1⟩
  · rintro ⟨⟨entries, listed⟩, readable⟩
    obtain ⟨paths, listing⟩ := isListing_of_collect well loaded listed
    obtain ⟨members, held⟩ := listing.exists_members
    exact ⟨_, ((yields found listed listing held).hash type wants _).mpr ⟨readable, rfl⟩⟩

end Packaging
end StackSynth
