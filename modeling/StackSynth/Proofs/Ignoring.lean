import StackSynth.Proofs.Looking
import StackSynth.Proofs.Obstacles
import StackSynth.Proofs.Telling

/-!
# Ignoring — what is left out has no influence

Of two file systems in which every look-up of a path that is kept sees the same, a directory has the
same hash in both, whatever is left out of it, with one exception.  A link that is left out is still
asked for where it leads, and if it leads nowhere, or back to where the walk comes from, then the
whole directory cannot be hashed.

* `Listing.Inside`, `Listing.Kept` — what is reached through directories that are kept;
* `Listing.Blocked` — a link that is left out and stands in the way all the same;
* `Listing.Unaffected` — look-ups of what is kept see the same;
* `Listing.Obstacle.other`, `Visible.other` — obstacles and visible paths are the same;
* `ignored_has_no_influence` — and so is the hash.
-/

namespace StackSynth

namespace Listing

open FileSystem

variable {fs fs' : FileSystem} {rules : IgnoreRules} {root : Path} {here : Level}
  {outside : List Level} {above names : List Name} {name : Name}

/-! ## What is kept -/

/-- The walk gets to a directory through directories that are kept. -/
inductive Inside (fs : FileSystem) (rules : IgnoreRules) (root : Path) :
    List Name → Level → List Level → Prop
  | root {base : Location} : fs.stat root = .ok (base, .directory) →
      Inside fs rules root [] ⟨base, root⟩ []
  | down {above : List Name} {here : Level} {outside : List Level} {name : Name} {l : Location} :
      Inside fs rules root above here outside →
      rules.ignores (relative (above ++ [name])) true = false →
      fs.stat (here.path.child name) = .ok (l, .directory) →
      Inside fs rules root (above ++ [name]) ⟨l, here.path.child name⟩ (here :: outside)

/-- Something in such a directory is not left out. -/
inductive Kept (fs : FileSystem) (rules : IgnoreRules) (root : Path) : List Name → Prop
  | child {above : List Name} {here : Level} {outside : List Level} {name : Name} :
      Inside fs rules root above here outside → fs.get? (name :: here.location) ≠ none →
      rules.ignores (relative (above ++ [name]))
        (ahead fs (name :: here.location) (here.path.child name)) = false →
      Kept fs rules root (above ++ [name])

/-- A dead link stands in such a directory, and is left out. -/
def Blocked (fs : FileSystem) (rules : IgnoreRules) (root : Path) : Prop :=
  ∃ above here outside name, Inside fs rules root above here outside
    ∧ Dead fs (here :: outside) (name :: here.location) (here.path.child name)
    ∧ rules.ignores (relative (above ++ [name]))
      (ahead fs (name :: here.location) (here.path.child name)) = true

theorem Inside.path (inside : Inside fs rules root above here outside) :
    here.path = root.descend above := by
  induction inside with
  | root found => rfl
  | down _ _ _ ih => rw [Path.descend_append, ← ih]; rfl

theorem Inside.found (inside : Inside fs rules root above here outside) :
    fs.stat here.path = .ok (here.location, .directory) := by
  cases inside with
  | root found => exact found
  | down _ _ found => exact found

theorem Inside.entered (inside : Inside fs rules root above here outside) :
    ∃ left, fs.reach false here.path = .ok (left, here.location) :=
  (stat_eq_directory_iff.mp inside.found).2

/-- What is found is there. -/
theorem Inside.there (inside : Inside fs rules root above here outside) {l : Location}
    {object : Object} (found : fs.stat (here.path.child name) = .ok (l, object)) :
    fs.get? (name :: here.location) ≠ none := by
  intro nothing
  obtain ⟨left, entered⟩ := inside.entered
  obtain ⟨good, -⟩ := reach_of_stat_child found
  rw [stat_child good entered, FileSystem.walk] at found
  split at found <;> simp [nothing, Except.bind] at found

theorem Inside.ahead_eq (inside : Inside fs rules root above here outside) {l : Location}
    {object : Object} (found : fs.stat (here.path.child name) = .ok (l, object)) :
    ahead fs (name :: here.location) (here.path.child name) = decide (object = .directory) := by
  obtain ⟨left, entered⟩ := inside.entered
  exact Listing.ahead_eq entered found

/-- Wherever a walk gets to, an obstacle is one for the whole walk. -/
theorem Inside.obstacle (inside : Inside fs rules root above here outside)
    (known : name ∈ fs.children here.location)
    (obstacle : Obstacle fs rules here outside above name) :
    ∃ base first, fs.stat root = .ok (base, .directory) ∧ first ∈ fs.children base
      ∧ Obstacle fs rules ⟨base, root⟩ [] [] first := by
  induction inside generalizing name with
  | root found => exact ⟨_, name, found, known, obstacle⟩
  | down inside kept found ih =>
      refine ih ?_ (.deeper ?_ found known obstacle)
      · exact mem_children.mpr (Option.ne_none_iff_exists'.mp (inside.there found))
      · rw [inside.ahead_eq found]
        simpa using kept

/-- A directory that is blocked cannot be listed. -/
theorem Blocked.obstacle (blocked : Blocked fs rules root) :
    ∃ base first, fs.stat root = .ok (base, .directory) ∧ first ∈ fs.children base
      ∧ Obstacle fs rules ⟨base, root⟩ [] [] first := by
  obtain ⟨above, here, outside, name, inside, dead, -⟩ := blocked
  obtain ⟨target, stands⟩ := dead.1
  exact inside.obstacle (mem_children.mpr ⟨_, stands⟩) (.dead dead)

/-! ## Visible paths -/

/-- What is above something visible is kept. -/
theorem Visible.inside {base : Location} (found : fs.stat root = .ok (base, .directory))
    {above rest : List Name} (visible : Visible fs rules root (above ++ rest)) (deeper : rest ≠ []) :
    ∃ here outside, Inside fs rules root above here outside := by
  induction above using List.reverseRecOn generalizing rest with
  | nil => exact ⟨_, _, .root found⟩
  | append_singleton up name ih =>
      have whole : Visible fs rules root (up ++ name :: rest) := by simpa using visible
      obtain ⟨here, outside, inside⟩ := ih whole (by simp)
      obtain ⟨-, seen⟩ := visible.above (by simp) deeper
      obtain ⟨l, object, stands, kind, -⟩ := seen?_eq_some_iff.mp seen
      obtain rfl := kindOf?_eq_directory_iff.mp kind
      rw [Path.descend_append, ← inside.path] at stands
      exact ⟨_, _, inside.down (visible.passed (up ++ [name]) rest rfl (by simp) deeper) stands⟩

theorem Visible.kept {base : Location} (found : fs.stat root = .ok (base, .directory))
    (visible : Visible fs rules root names) : Kept fs rules root names := by
  obtain ⟨above, name, rfl⟩ : ∃ above name, names = above ++ [name] :=
    ⟨_, _, (List.dropLast_concat_getLast visible.below).symm⟩
  obtain ⟨here, outside, inside⟩ := visible.inside found (by simp)
  obtain ⟨entry, seen, kept⟩ := visible.seen
  obtain ⟨l, object, stands, kind, -⟩ := seen?_eq_some_iff.mp seen
  rw [Path.descend_append, ← inside.path] at stands
  refine .child inside (inside.there stands) ?_
  have same : decide (object = .directory) = decide (entry.kind = .directory) := by
    rw [decide_eq_decide, ← kindOf?_eq_directory_iff, kind, Option.some.injEq]
  rw [inside.ahead_eq stands, same]
  exact kept

/-! ## Two file systems -/

/-- All look-ups of what is kept see the same in the other file system. -/
structure Unaffected (fs fs' : FileSystem) (rules : IgnoreRules) (root : Path) : Prop where
  current : fs'.current = fs.current
  start : ∀ l, LooksAt fs root l → fs'.get? l = fs.get? l
  kept : ∀ names, Kept fs rules root names → ∀ l, LooksAt fs (root.descend names) l →
    fs'.get? l = fs.get? l

namespace Unaffected

variable (unaffected : Unaffected fs fs' rules root)

include unaffected

theorem stat_kept (kept : Kept fs rules root names) :
    fs'.stat (root.descend names) = fs.stat (root.descend names) :=
  stat_looks unaffected.current (unaffected.kept names kept)

theorem stat_root : fs'.stat root = fs.stat root :=
  stat_looks unaffected.current unaffected.start

/-- What stands under a name that is kept. -/
theorem get?_kept (inside : Inside fs rules root above here outside)
    (kept : Kept fs rules root (above ++ [name])) :
    fs'.get? (name :: here.location) = fs.get? (name :: here.location) := by
  obtain ⟨left, entered⟩ := inside.entered
  refine unaffected.kept _ kept _ ?_
  rw [Path.descend_append, ← inside.path]
  exact looksAt_child entered

theorem stat_child (inside : Inside fs rules root above here outside)
    (kept : Kept fs rules root (above ++ [name])) :
    fs'.stat (here.path.child name) = fs.stat (here.path.child name) := by
  have same := unaffected.stat_kept kept
  rw [Path.descend_append, ← inside.path] at same
  exact same

theorem ahead_eq (inside : Inside fs rules root above here outside)
    (kept : Kept fs rules root (above ++ [name])) :
    ahead fs' (name :: here.location) (here.path.child name)
      = ahead fs (name :: here.location) (here.path.child name) := by
  unfold ahead isDirectory
  rw [unaffected.get?_kept inside kept, unaffected.stat_child inside kept]

/-- A walk gets to the same directories. -/
theorem inside (inside : Inside fs rules root above here outside) :
    Inside fs' rules root above here outside := by
  induction inside with
  | root found => exact .root (unaffected.stat_root.trans found)
  | down inside notIgnored found ih =>
      have kept : Kept fs rules root _ := .child inside (inside.there found) (by
        rw [inside.ahead_eq found]
        simpa using notIgnored)
      exact ih.down notIgnored ((unaffected.stat_child inside kept).trans found)

/-- What a walk stumbles over is an obstacle in the other file system, too, unless it is a link
that is left out. -/
theorem obstacle (inside : Inside fs rules root above here outside)
    (known : name ∈ fs.children here.location)
    (obstacle : Obstacle fs rules here outside above name) :
    Blocked fs rules root
      ∨ name ∈ fs'.children here.location ∧ Obstacle fs' rules here outside above name := by
  -- A kept name stands in both file systems with the same object, hence is a child in both.
  have there : ∀ {above here outside name}, Inside fs rules root above here outside →
      name ∈ fs.children here.location → Kept fs rules root (above ++ [name]) →
      name ∈ fs'.children here.location := by
    intro above here outside name inside known kept
    obtain ⟨object, stands⟩ := mem_children.mp known
    exact mem_children.mpr ⟨object, (unaffected.get?_kept inside kept).trans stands⟩
  induction obstacle with
  | @dead here outside above name dead =>
      -- A dead link is an obstacle before the rules are asked, so they may leave it out.
      by_cases ignored : rules.ignores (relative (above ++ [name]))
          (ahead fs (name :: here.location) (here.path.child name)) = true
      · exact Or.inl ⟨above, here, outside, name, inside, dead, ignored⟩
      · obtain ⟨⟨target, stands⟩, leads⟩ := dead
        have kept : Kept fs rules root (above ++ [name]) :=
          .child inside (by simp [stands]) (Bool.eq_false_iff.mpr ignored)
        refine Or.inr ⟨there inside known kept, .dead ⟨⟨target, ?_⟩, ?_⟩⟩
        · rw [unaffected.get?_kept inside kept, stands]
        · rw [unaffected.stat_child inside kept]
          exact leads
  | @lost here outside above name fault notIgnored missing =>
      obtain ⟨object, stands⟩ := mem_children.mp known
      have kept : Kept fs rules root (above ++ [name]) := .child inside (by simp [stands]) notIgnored
      have missing' := (unaffected.stat_child inside kept).trans missing
      refine Or.inr ⟨there inside known kept, .lost ?_ missing'⟩
      rw [unaffected.ahead_eq inside kept]
      exact notIgnored
  | @deeper here outside above name next l notIgnored found member _ ih =>
      obtain ⟨object, stands⟩ := mem_children.mp known
      have kept : Kept fs rules root (above ++ [name]) := .child inside (by simp [stands]) notIgnored
      have down : Inside fs rules root (above ++ [name]) ⟨l, here.path.child name⟩ (here :: outside) :=
        inside.down (by simpa [inside.ahead_eq found] using notIgnored) found
      rcases ih down member with blocked | ⟨member', below⟩
      · exact Or.inl blocked
      · refine Or.inr ⟨there inside known kept, .deeper ?_ ?_ member' below⟩
        · rw [unaffected.ahead_eq inside kept]
          exact notIgnored
        · rw [unaffected.stat_child inside kept]
          exact found

/-- What is visible is visible there, and holds the same. -/
theorem visible {base : Location} (found : fs.stat root = .ok (base, .directory))
    (visible : Visible fs rules root names) : Visible fs' rules root names where
  below := visible.below
  other := visible.other
  seen := by
    rw [seen?, unaffected.stat_kept (visible.kept found)]
    exact visible.seen
  passed := visible.passed

end Unaffected

theorem Unaffected.sameTree {base : Location} (unaffected : Unaffected fs fs' rules root)
    (unaffected' : Unaffected fs' fs rules root) (found : fs.stat root = .ok (base, .directory)) :
    SameTree fs rules root fs' rules root where
  visible := fun _ => ⟨unaffected.visible found,
    unaffected'.visible (unaffected.stat_root.trans found)⟩
  held := by
    intro names visible
    rw [held?, held?, unaffected.stat_kept (visible.kept found)]

/-- Without dead links among what is left out, there are obstacles in both or in none. -/
theorem Unaffected.clear {base : Location} (unaffected : Unaffected fs fs' rules root)
    (found : fs.stat root = .ok (base, .directory)) (open' : ¬ Blocked fs rules root)
    (clear : ∀ name ∈ fs'.children base, ¬ Obstacle fs' rules ⟨base, root⟩ [] [] name) :
    ∀ name ∈ fs.children base, ¬ Obstacle fs rules ⟨base, root⟩ [] [] name := by
  intro name known obstacle
  rcases unaffected.obstacle (.root found) known obstacle with blocked | ⟨known', other⟩
  · exact open' blocked
  · exact clear name known' other

/-! ## Differences -/

/-- At or below a name under which nothing stands, or something that is left out. -/
def LeftOut (fs : FileSystem) (rules : IgnoreRules) (root : Path) (base : Location)
    (names : List Name) : Prop :=
  ∃ up down, names = up ++ down ∧ up ≠ [] ∧ (fs.get? (up.reverse ++ base) = none
    ∨ rules.ignores (relative up) (ahead fs (up.reverse ++ base) (root.descend up)) = true)

/-- The file systems differ only below the root and in what both leave out, and no link that is kept
leads to where they differ. -/
structure DifferAside (fs fs' : FileSystem) (rules : IgnoreRules) (root : Path) (base : Location) :
    Prop where
  current : fs'.current = fs.current
  start : ∀ l, LooksAt fs root l → fs'.get? l = fs.get? l
  ignored : ∀ l, fs'.get? l ≠ fs.get? l → ∃ names, l = names.reverse ++ base
    ∧ LeftOut fs rules root base names ∧ LeftOut fs' rules root base names
  linked : ∀ above here outside name, Inside fs rules root above here outside →
    Kept fs rules root (above ++ [name]) →
    here.location ≠ above.reverse ++ base ∨ (∃ target, fs.get? (name :: here.location) = some (.link target)) →
    ∀ l, LooksAt fs (root.descend (above ++ [name])) l → fs'.get? l = fs.get? l

section Straight

variable {base : Location}

theorem Inside.directory (sound : Sound fs) (inside : Inside fs rules root above here outside) :
    fs.get? here.location = some .directory := by
  obtain ⟨left, entered⟩ := inside.entered
  exact sound.reach_directory entered

theorem directory_above (sound : Sound fs) {up down : List Name}
    (directory : fs.get? ((up ++ down).reverse ++ base) = some .directory) :
    fs.get? (up.reverse ++ base) = some .directory := by
  by_contra other
  cases down with
  | nil => exact other (by simpa using directory)
  | cons name down =>
      have below : Location.Below (up.reverse ++ base) ((up ++ name :: down).reverse ++ base) :=
        Location.below_iff.mpr ⟨(name :: down).reverse, by simp, by simp⟩
      rw [sound.toWellFormed.none_below other below] at directory
      cases directory

/-- Where directories stand one below the other, a walk passes no link. -/
theorem Inside.straight (sound : Sound fs) (found : fs.stat root = .ok (base, .directory))
    (inside : Inside fs rules root above here outside)
    (directory : fs.get? (above.reverse ++ base) = some .directory) :
    here.location = above.reverse ++ base := by
  induction inside with
  | root found' =>
      rw [found] at found'
      exact (Prod.mk.inj (Except.ok.inj found')).1.symm
  | @down above here outside name l inside _ stands ih =>
      have location := ih (directory_above sound directory)
      obtain ⟨left, entered⟩ := inside.entered
      obtain ⟨good, -⟩ := reach_of_stat_child stands
      have child : fs.get? (name :: here.location) = some .directory := by
        rw [location]
        simpa using directory
      rw [stat_child good entered, FileSystem.walk] at stands
      split at stands
      · cases stands
      · simp only [child, FileSystem.walk, Except.bind] at stands
        obtain ⟨rfl, -⟩ := Prod.mk.inj (Except.ok.inj stands)
        simp [location]

/-- On the way to the root, or straight down from it. -/
def OnWay (fs : FileSystem) (root : Path) (base : Location) (names : List Name) (l : Location) : Prop :=
  LooksAt fs root l ∨ ∃ up down, names = up ++ down ∧ up ≠ [] ∧ l = up.reverse ++ base

theorem OnWay.child {left : Nat} {l : Location}
    (entered : fs.reach false here.path = .ok (left, here.location))
    (location : here.location = above.reverse ++ base)
    (unlinked : ∀ target, fs.get? (name :: here.location) ≠ some (.link target))
    (front : LooksAt fs here.path l → OnWay fs root base above l)
    (looks : LooksAt fs (here.path.child name) l) : OnWay fs root base (above ++ [name]) l := by
  rcases looks.of_child entered unlinked with looks | rfl
  · rcases front looks with start | ⟨up, down, rfl, some, rfl⟩
    · exact Or.inl start
    · exact Or.inr ⟨up, down ++ [name], by simp, some, rfl⟩
  · exact Or.inr ⟨above ++ [name], [], by simp, by simp, by simp [location]⟩

/-- The path of such a directory looks at nothing else. -/
theorem Inside.looks (sound : Sound fs) (found : fs.stat root = .ok (base, .directory))
    (inside : Inside fs rules root above here outside)
    (directory : fs.get? (above.reverse ++ base) = some .directory) {l : Location}
    (looks : LooksAt fs here.path l) : OnWay fs root base above l := by
  induction inside with
  | root _ => exact Or.inl looks
  | @down above here outside name m inside _ stands ih =>
      have upper := directory_above sound directory
      have location := inside.straight sound found upper
      obtain ⟨left, entered⟩ := inside.entered
      have child : fs.get? (name :: here.location) = some .directory := by
        rw [location]
        simpa using directory
      exact .child entered location (by simp [child]) (ih upper) looks

/-- No part of the names of such a directory is left out. -/
theorem Inside.part {up down : List Name} (inside : Inside fs rules root (up ++ down) here outside)
    (some : up ≠ []) : rules.ignores (relative up) true = false := by
  generalize whole : up ++ down = all at inside
  induction inside generalizing down with
  | root _ => exact absurd (List.append_eq_nil_iff.mp whole).1 some
  | @down above here outside name l inside kept _ ih =>
      rcases List.eq_nil_or_concat down with rfl | ⟨front, last, rfl⟩
      · rw [List.append_nil] at whole
        rw [whole]
        exact kept
      · rw [List.concat_eq_append, ← List.append_assoc] at whole
        exact ih (List.append_inj' whole rfl).1

/-- What is kept, and reached without links, is not left out. -/
theorem Inside.not_leftOut (sound : Sound fs) (inside : Inside fs rules root above here outside)
    (location : here.location = above.reverse ++ base) (stands : fs.get? (name :: here.location) ≠ none)
    (notIgnored : rules.ignores (relative (above ++ [name]))
      (ahead fs (name :: here.location) (here.path.child name)) = false)
    {up down : List Name} (whole : above ++ [name] = up ++ down) :
    ¬ LeftOut fs rules root base up := by
  rintro ⟨first, rest, rfl, some, leftOut⟩
  have directory := inside.directory sound
  rw [location] at directory
  rcases List.eq_nil_or_concat (rest ++ down) with last | ⟨front, last, more⟩
  · -- All of the names.
    obtain ⟨rfl, rfl⟩ := List.append_eq_nil_iff.mp last
    simp only [List.append_nil] at whole
    subst whole
    rw [List.reverse_append, List.reverse_singleton, List.singleton_append, List.cons_append,
      ← location, Path.descend_append, ← inside.path] at leftOut
    rcases leftOut with nothing | ignored
    · exact stands nothing
    · exact absurd (notIgnored.symm.trans ignored) (by decide)
  · -- A directory on the way.
    rw [List.append_assoc, more, List.concat_eq_append, ← List.append_assoc] at whole
    obtain ⟨rfl, -⟩ := List.append_inj' whole rfl
    have upper := directory_above sound directory
    rcases leftOut with nothing | ignored
    · rw [upper] at nothing
      cases nothing
    · have kept := inside.part some
      rw [ahead, upper] at ignored
      exact absurd (kept.symm.trans ignored) (by decide)

/-- Then what is kept does not see the differences. -/
theorem DifferAside.unaffected (aside : DifferAside fs fs' rules root base) (sound : Sound fs)
    (found : fs.stat root = .ok (base, .directory)) : Unaffected fs fs' rules root where
  current := aside.current
  start := aside.start
  kept := by
    rintro names ⟨inside, stands, notIgnored⟩ l looks
    rename_i above here outside name
    by_cases linked : here.location ≠ above.reverse ++ base
        ∨ ∃ target, fs.get? (name :: here.location) = some (.link target)
    · exact aside.linked above here outside name inside (.child inside stands notIgnored) linked l looks
    · obtain ⟨location, unlinked⟩ := not_or.mp linked
      rw [ne_eq, not_not] at location
      have directory := inside.directory sound
      rw [location] at directory
      obtain ⟨left, entered⟩ := inside.entered
      rw [Path.descend_append, ← inside.path] at looks
      have place : OnWay fs root base (above ++ [name]) l :=
        .child entered location (not_exists.mp unlinked) (inside.looks sound found directory) looks
      rcases place with start | ⟨up, down, whole, some, rfl⟩
      · exact aside.start l start
      · by_contra differ
        obtain ⟨others, same, leftOut, -⟩ := aside.ignored _ differ
        obtain rfl : up = others := by simpa using List.append_cancel_right same
        exact inside.not_leftOut sound location stands notIgnored whole leftOut

end Straight

end Listing

namespace Packaging

open Listing

variable {fs fs' : FileSystem} {rules : IgnoreRules} {root : Path} {type : AssetType} {base : Location}

/-- A link that is left out stands in the way. -/
def Stuck (fs : FileSystem) (root : Path) : Prop :=
  ∃ rules, IgnoreRules.load fs root = .ok rules ∧ Blocked fs rules root

theorem hash_error_of_load {failure : IgnoreFailure} (wants : type.wantsDirectory = true)
    (refused : IgnoreRules.load fs root = .error failure) :
    ∃ failure, Packaging.hash fs root type = .error failure := by
  cases told : Packaging.hash fs root type with
  | error failure => exact ⟨failure, rfl⟩
  | ok hash =>
      obtain ⟨entries, examined⟩ := hash_eq_ok_iff.mp told
      rcases examine_cases examined with ⟨rfl, -⟩ | ⟨-, listed, -⟩
      · cases wants
      · obtain ⟨rules, loaded⟩ := load_of_collect listed
        rw [refused] at loaded
        cases loaded

theorem Stuck.hash_error (well : fs.WellFormed) (wants : type.wantsDirectory = true)
    (stuck : Stuck fs root) : ∃ failure, Packaging.hash fs root type = .error failure := by
  obtain ⟨rules, loaded, blocked⟩ := stuck
  obtain ⟨base, first, found, known, obstacle⟩ := blocked.obstacle
  cases told : Packaging.hash fs root type with
  | error failure => exact ⟨failure, rfl⟩
  | ok hash =>
      have clear := ((hash_ok_iff well wants loaded found).mp ⟨hash, told⟩).1
      exact absurd obstacle (clear first known)

/-- What can be hashed in one file system has the same hash in the other. -/
theorem hash_ok_other {hash : ContentHash} (well : fs.WellFormed) (well' : fs'.WellFormed)
    (wants : type.wantsDirectory = true) (loaded : IgnoreRules.load fs root = .ok rules)
    (loaded' : IgnoreRules.load fs' root = .ok rules)
    (found : fs.stat root = .ok (base, .directory)) (unaffected : Unaffected fs fs' rules root)
    (unaffected' : Unaffected fs' fs rules root) (telling : Telling fs rules root fs rules root)
    (open' : ¬ Blocked fs' rules root) (told : Packaging.hash fs root type = .ok hash) :
    Packaging.hash fs' root type = .ok hash := by
  have found' := unaffected.stat_root.trans found
  have same := unaffected.sameTree unaffected' found
  obtain ⟨clear, readable⟩ := (hash_ok_iff well wants loaded found).mp ⟨hash, told⟩
  have clear' := unaffected'.clear found' open' clear
  obtain ⟨entries, listed⟩ := (collect_ok_iff loaded found).mpr clear
  obtain ⟨entries', listed'⟩ := (collect_ok_iff loaded' found').mpr clear'
  obtain ⟨paths, listing⟩ := isListing_of_collect well loaded listed
  obtain ⟨paths', listing'⟩ := isListing_of_collect well' loaded' listed'
  obtain ⟨members, held⟩ := listing.exists_members
  obtain ⟨members', held'⟩ := listing'.exists_members
  have apart : Telling fs rules root fs' rules root := fun above a b visible visible' =>
    telling above a b visible ((same.visible _).mpr visible')
  obtain rfl := (members_eq_iff apart listing listing' held held').mpr same
  obtain ⟨-, rfl⟩ := ((yields found listed listing held).hash type wants hash).mp told
  refine ((yields found' listed' listing' held').hash type wants _).mpr ⟨?_, rfl⟩
  -- Files are read under the paths under which they are seen.
  intro names visible' l content mode stands
  have visible := (same.visible names).mpr visible'
  rw [unaffected.stat_kept (visible.kept found)] at stands
  exact readable names visible l content mode stands

end Packaging

open Listing Packaging in
/-- Two file systems that differ only in what is left out of a directory give it the same hash, or
none, as long as its ignore file says the same and its names tell.  Only a link that is left out and
leads nowhere, or back to where it is met, makes a difference: where there is one, the directory has
no hash. -/
theorem ignored_has_no_influence {fs fs' : FileSystem} {root : Path} {base : Location}
    {type : AssetType} (sound : FileSystem.Sound fs) (sound' : FileSystem.Sound fs')
    (wants : type.wantsDirectory = true) (found : fs.stat root = .ok (base, .directory))
    (loads : IgnoreRules.load fs' root = IgnoreRules.load fs root)
    (aside : ∀ rules, IgnoreRules.load fs root = .ok rules →
      DifferAside fs fs' rules root base ∧ DifferAside fs' fs rules root base)
    (telling : ∀ rules, IgnoreRules.load fs root = .ok rules → Telling fs rules root fs rules root) :
    (Stuck fs root → ∃ failure, Packaging.hash fs root type = .error failure)
      ∧ (Stuck fs' root → ∃ failure, Packaging.hash fs' root type = .error failure)
      ∧ (¬ Stuck fs root → ¬ Stuck fs' root → ∀ hash, Packaging.hash fs root type = .ok hash
        ↔ Packaging.hash fs' root type = .ok hash) := by
  have well := sound.toWellFormed
  have well' := sound'.toWellFormed
  refine ⟨Stuck.hash_error well wants, Stuck.hash_error well' wants, ?_⟩
  intro free free' hash
  cases loaded : IgnoreRules.load fs root with
  | error failure =>
      obtain ⟨_, refused⟩ := hash_error_of_load wants loaded
      obtain ⟨_, refused'⟩ := hash_error_of_load wants (loads.trans loaded)
      rw [refused, refused']
      exact ⟨nofun, nofun⟩
  | ok rules =>
      have loaded' := loads.trans loaded
      have there := (aside rules loaded).1.unaffected sound found
      have found' := there.stat_root.trans found
      have back := (aside rules loaded).2.unaffected sound' found'
      have tells := telling rules loaded
      have same := there.sameTree back found
      have tells' : Telling fs' rules root fs' rules root := fun above a b visible visible' =>
        tells above a b ((same.visible _).mpr visible) ((same.visible _).mpr visible')
      exact ⟨hash_ok_other well well' wants loaded loaded' found there back tells
          fun blocked => free' ⟨rules, loaded', blocked⟩,
        hash_ok_other well' well wants loaded' loaded found' back there tells'
          fun blocked => free ⟨rules, loaded, blocked⟩⟩

/-! ### A name that is left out -/

namespace LeftAside

open Listing Packaging FileSystem

def d : Name := ⟨[100], .refl true⟩
def x : Name := ⟨[120], .refl true⟩

/-- A directory `d` whose ignore file leaves out `x`, with something under this name. -/
def whole (object : Object) : FileSystem where
  objects := [([x, d], object), ([ignoreName, d], .file [120, 10] 0o644), ([d], .directory)]
  current := []

/-- The same without it. -/
def without : FileSystem where
  objects := [([ignoreName, d], .file [120, 10] 0o644), ([d], .directory)]
  current := []

def root : Path := ⟨[100]⟩

/-- The rule of the one line. -/
def rules : IgnoreRules :=
  ⟨[⟨[.leading, .literal 'x'], false, false⟩]⟩

theorem load_without : IgnoreRules.load without root = .ok rules := by cbv

theorem load_whole (object : Object) : IgnoreRules.load (whole object) root = .ok rules := by cbv

theorem ignored (isDirectory : Bool) :
    rules.ignores (relative [x]) isDirectory = true
      ∧ rules.ignores (relative [ignoreName]) isDirectory = true := by
  cases isDirectory <;> cbv

theorem stat_without : without.stat root = .ok ([d], .directory) := by cbv

theorem stat_whole (object : Object) : (whole object).stat root = .ok ([d], .directory) := by cbv

/-- Nothing else is in the directory. -/
theorem names_of_get? {fs : FileSystem} (known : fs = without ∨ ∃ object, fs = whole object) {name : Name}
    (stands : fs.get? [name, d] ≠ none) : name = x ∨ name = ignoreName := by
  by_contra other
  obtain ⟨notX, notFile⟩ := not_or.mp other
  apply stands
  rcases known with rfl | ⟨object, rfl⟩ <;>
    simp [FileSystem.get?, without, whole, lookup, Ne.symm notX, Ne.symm notFile]

/-- All of it is left out. -/
theorem not_kept {fs : FileSystem} (known : fs = without ∨ ∃ object, fs = whole object)
    {above : List Name} {here : Level} {outside : List Level}
    (inside : Inside fs rules root above here outside) :
    (above = [] ∧ here.location = [d]) ∧ ∀ name, fs.get? (name :: here.location) ≠ none →
      ∀ isDirectory, rules.ignores (relative (above ++ [name])) isDirectory = true := by
  have found : fs.stat root = .ok ([d], .directory) := by
    rcases known with rfl | ⟨object, rfl⟩
    · exact stat_without
    · exact stat_whole object
  have all : ∀ name, fs.get? [name, d] ≠ none → ∀ isDirectory,
      rules.ignores (relative [name]) isDirectory = true := by
    intro name stands isDirectory
    rcases names_of_get? known stands with rfl | rfl
    · exact (ignored isDirectory).1
    · exact (ignored isDirectory).2
  induction inside with
  | root found' =>
      obtain ⟨rfl, -⟩ := Prod.mk.inj (Except.ok.inj (found.symm.trans found'))
      exact ⟨⟨rfl, rfl⟩, all⟩
  | down inside kept stands ih =>
      obtain ⟨-, leftOut⟩ := ih
      exact absurd (kept.symm.trans (leftOut _ (inside.there stands) true)) (by decide)

theorem nothing_kept {fs : FileSystem} (known : fs = without ∨ ∃ object, fs = whole object)
    {names : List Name} : ¬ Kept fs rules root names := by
  rintro ⟨inside, stands, notIgnored⟩
  exact absurd (notIgnored.symm.trans ((not_kept known inside).2 _ stands _)) (by decide)

theorem looks_root {fs : FileSystem} (known : fs = without ∨ ∃ object, fs = whole object) {l : Location}
    (looks : LooksAt fs root l) : l = [d] := by
  have directory : fs.get? [d] = some .directory ∧ fs.current = [] := by
    rcases known with rfl | ⟨object, rfl⟩
    · exact ⟨by cbv, rfl⟩
    · exact ⟨by cbv, rfl⟩
  have looks' : Looks fs linkLimit [] [.down d] l := by
    have place : origin fs.current root = [] := by rw [directory.2]; rfl
    have steps : stepsOf root = [.down d] := by cbv
    rwa [LooksAt, place, steps] at looks
  cases looks' with
  | here => rfl
  | down _ _ more => cases more
  | cross _ found _ => rw [directory.1] at found; cases found

/-- Whatever the name that is left out belongs to, it makes no difference. -/
theorem differ_aside {fs fs' : FileSystem} (known : fs = without ∨ ∃ object, fs = whole object)
    (known' : fs' = without ∨ ∃ object, fs' = whole object) : DifferAside fs fs' rules root [d] where
  current := by
    rcases known with rfl | ⟨object, rfl⟩ <;> rcases known' with rfl | ⟨object', rfl⟩ <;> rfl
  start := by
    intro l looks
    obtain rfl := looks_root known looks
    rcases known with rfl | ⟨object, rfl⟩ <;> rcases known' with rfl | ⟨object', rfl⟩ <;> cbv
  ignored := by
    intro l differ
    have leftOut : ∀ fs, LeftOut fs rules root [d] [x] := fun fs =>
      ⟨[x], [], rfl, by simp, Or.inr (ignored _).1⟩
    refine ⟨[x], ?_, leftOut fs, leftOut fs'⟩
    by_contra other
    refine differ ?_
    have apart : [x, d] ≠ l := Ne.symm other
    rcases known with rfl | ⟨object, rfl⟩ <;> rcases known' with rfl | ⟨object', rfl⟩ <;>
      simp [FileSystem.get?, without, whole, lookup, apart]
  linked := fun _ _ _ _ _ kept => absurd kept (nothing_kept known)

theorem differ_whole (object : Object) {others : IgnoreRules}
    (loaded : IgnoreRules.load without root = .ok others) :
    DifferAside without (whole object) others root [d]
      ∧ DifferAside (whole object) without others root [d] := by
  obtain rfl := Except.ok.inj (load_without.symm.trans loaded)
  exact ⟨differ_aside (Or.inl rfl) (Or.inr ⟨object, rfl⟩),
    differ_aside (Or.inr ⟨object, rfl⟩) (Or.inl rfl)⟩

theorem telling_without {others : IgnoreRules} (loaded : IgnoreRules.load without root = .ok others) :
    Telling without others root without others root := by
  obtain rfl := Except.ok.inj (load_without.symm.trans loaded)
  exact fun _ _ _ visible => absurd (visible.kept stat_without) (nothing_kept (Or.inl rfl))

theorem not_stuck {fs : FileSystem}
    (unlinked : ∀ l target, fs.get? l ≠ some (.link target)) : ¬ Stuck fs root := by
  rintro ⟨_, _, above, here, outside, name, -, ⟨⟨target, stands⟩, -⟩, -⟩
  exact unlinked _ target stands

theorem unlinked_without (l : Location) (target : Path) : without.get? l ≠ some (.link target) := by
  unfold FileSystem.get? without
  split
  · simp
  · simp only [lookup]
    repeat' split
    all_goals simp

theorem sound_without : Sound without := ⟨.of_objects (by decide) (by decide), rfl⟩

theorem hash_without : ∃ hash, Packaging.hash without root .directory = .ok hash := by
  refine (hash_ok_iff sound_without.toWellFormed rfl load_without stat_without).mpr ⟨?_, ?_⟩
  · intro name known
    obtain ⟨object, stands⟩ := mem_children.mp known
    have leftOut := (not_kept (Or.inl rfl) (.root stat_without)).2 name (by simp [stands])
    refine not_obstacle_of_ignored ?_ (leftOut _)
    rintro ⟨⟨target, link⟩, -⟩
    exact unlinked_without _ target link
  · exact fun names visible => absurd (visible.kept stat_without) (nothing_kept (Or.inl rfl))

/-- A file under the name does not change the hash. -/
theorem file_aside : ∃ hash, Packaging.hash without root .directory = .ok hash
    ∧ Packaging.hash (whole (.file [104, 105] 0o644)) root .directory = .ok hash := by
  obtain ⟨hash, told⟩ := hash_without
  have sound : Sound (whole (.file [104, 105] 0o644)) := ⟨.of_objects (by decide) (by decide), rfl⟩
  have unlinked : ∀ l target, (whole (.file [104, 105] 0o644)).get? l ≠ some (.link target) := by
    intro l target
    unfold FileSystem.get? whole
    split
    · simp
    · simp only [lookup]
      repeat' split
      all_goals simp
  have wants : AssetType.directory.wantsDirectory = true := rfl
  have same := (ignored_has_no_influence sound_without sound wants stat_without
    ((load_whole _).trans load_without.symm) ?_ ?_).2.2 (not_stuck unlinked_without) (not_stuck unlinked)
  · exact ⟨hash, told, (same hash).mp told⟩
  · exact fun _ loaded => differ_whole _ loaded
  · exact fun _ loaded => telling_without loaded

/-- A link under the name that leads nowhere does. -/
theorem link_not_aside : ¬ ∀ (fs fs' : FileSystem) (root : Path) (base : Location) (type : AssetType),
    Sound fs → Sound fs' → type.wantsDirectory = true → fs.stat root = .ok (base, .directory) →
    IgnoreRules.load fs' root = IgnoreRules.load fs root →
    (∀ rules, IgnoreRules.load fs root = .ok rules →
      DifferAside fs fs' rules root base ∧ DifferAside fs' fs rules root base) →
    (∀ rules, IgnoreRules.load fs root = .ok rules → Telling fs rules root fs rules root) →
    ∀ hash, Packaging.hash fs root type = .ok hash ↔ Packaging.hash fs' root type = .ok hash := by
  intro claim
  obtain ⟨hash, told⟩ := hash_without
  have sound : Sound (whole (.link ⟨[103]⟩)) := ⟨.of_objects (by decide) (by decide), rfl⟩
  have told' := (claim without (whole (.link ⟨[103]⟩)) root [d] .directory sound_without sound rfl
    stat_without ((load_whole _).trans load_without.symm) ?_ ?_ hash).mp told
  · have stuck : Stuck (whole (.link ⟨[103]⟩)) root := by
      refine ⟨rules, load_whole _, [], ⟨[d], root⟩, [], x, .root (stat_whole _), ⟨⟨⟨[103]⟩, ?_⟩, ?_⟩,
        (ignored _).1⟩
      · cbv
      · exact Or.inl ⟨.notFound, by cbv⟩
    have wants : AssetType.directory.wantsDirectory = true := rfl
    obtain ⟨failure, refused⟩ := stuck.hash_error sound.toWellFormed wants
    rw [refused] at told'
    cases told'
  · exact fun _ loaded => differ_whole _ loaded
  · exact fun _ loaded => telling_without loaded

end LeftAside

end StackSynth
