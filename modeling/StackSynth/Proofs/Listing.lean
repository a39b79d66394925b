import Mathlib
import StackSynth.Listing
import StackSynth.Proofs.Action
import StackSynth.Proofs.FileSystem
import StackSynth.Proofs.Resolve
import StackSynth.Proofs.Utf8

/-!
# Listing — a walk finds the visible tree

What is visible below a directory is said without walking: a list of names is visible if the path
through them leads to a directory or to a regular file, and neither it nor a directory on the way
is left out by the rules.

* `Listing.seen?` — the entry that a list of names stands for, from one look-up of its path;
* `Listing.Visible` — a list of names that is listed;
* `Listing.Open` — the same from a directory on, name by name;
* `Listing.Walks`, `Listing.walks_of_walk` — the ways in which a walk that succeeds goes on;
* `Listing.Finds`, `Listing.walk_visible` — a walk finds what is open through the names that it
  is given, each path once.
-/

namespace StackSynth
namespace Listing

variable {fs : FileSystem} {rules : IgnoreRules} {root : Path}

/-! ## What is visible -/

/-- How an object is listed; pipes are not. -/
def kindOf? : Object → Option EntryKind
  | .directory => some .directory
  | .file content mode => some (.file (decide (mode &&& 0o111 ≠ 0)) content.length)
  | .link _ => none
  | .pipe => none

/-- The entry of a path below `root`, links followed. -/
def seen? (fs : FileSystem) (root : Path) (names : List Name) : Option Entry :=
  match fs.stat (root.descend names) with
  | .ok (_, object) => (kindOf? object).map fun kind => ⟨shown names, root.descend names, kind⟩
  | .error _ => none

/-- From `above`, the names `more` lead to something that is not left out, through directories
that are not left out. -/
structure Open (fs : FileSystem) (rules : IgnoreRules) (root : Path) (above more : List Name) :
    Prop where
  seen : ∃ entry, seen? fs root (above ++ more) = some entry ∧
    rules.ignores (relative (above ++ more)) (decide (entry.kind = .directory)) = false
  passed : ∀ up down, more = up ++ down → up ≠ [] → down ≠ [] →
    rules.ignores (relative (above ++ up)) true = false

/-- The names of something below `root` that is listed. -/
structure Visible (fs : FileSystem) (rules : IgnoreRules) (root : Path) (names : List Name) :
    Prop where
  below : names ≠ []
  /-- It is not the ignore file at the root. -/
  other : names.map Name.bytes ≠ [Utf8.encode IgnoreRules.fileName]
  seen : ∃ entry, seen? fs root names = some entry ∧
    rules.ignores (relative names) (decide (entry.kind = .directory)) = false
  passed : ∀ up down, names = up ++ down → up ≠ [] → down ≠ [] →
    rules.ignores (relative up) true = false

/-! ## Kinds -/

theorem and_eq_zero_iff (mode : Nat) :
    mode &&& 0o111 = 0 ↔ mode % 2 = 0 ∧ mode / 8 % 2 = 0 ∧ mode / 64 % 2 = 0 := by
  -- The mask has the bits 0, 3 and 6, so these bits of the mode decide the conjunction.
  have mask : ∀ i, Nat.testBit 0o111 i = decide (i = 0 ∨ i = 3 ∨ i = 6) := by
    intro i
    rcases Nat.lt_or_ge i 7 with small | large
    · have all : ∀ k : Fin 7, Nat.testBit 0o111 k = decide (k.val = 0 ∨ k.val = 3 ∨ k.val = 6) := by
        decide
      exact all ⟨i, small⟩
    · have zero : Nat.testBit 0o111 i = false :=
        Nat.testBit_lt_two_pow (Nat.lt_of_lt_of_le (by decide) (Nat.pow_le_pow_right (by decide) large))
      simp only [zero]
      symm
      simp only [decide_eq_false_iff_not]
      omega
  have bit : ∀ i, mode.testBit i = decide (mode / 2 ^ i % 2 = 1) := fun i =>
    Nat.testBit_eq_decide_div_mod_eq
  constructor
  · intro zero
    have off : ∀ i, (mode.testBit i && Nat.testBit 0o111 i) = false := by
      intro i
      rw [← Nat.testBit_and, zero, Nat.zero_testBit]
    have off0 := off 0
    have off3 := off 3
    have off6 := off 6
    simp [bit, mask] at off0 off3 off6
    omega
  · rintro ⟨zero, three, six⟩
    apply Nat.eq_of_testBit_eq
    intro i
    rw [Nat.testBit_and, Nat.zero_testBit, mask, bit]
    by_cases set : i = 0 ∨ i = 3 ∨ i = 6
    · rcases set with rfl | rfl | rfl <;> simp <;> omega
    · simp [set]

/-- Anyone may execute if any of the three bits is set. -/
theorem executable_eq (mode : Nat) : executable mode = decide (mode &&& 0o111 ≠ 0) := by
  have zero := and_eq_zero_iff mode
  rw [Bool.eq_iff_iff]
  simp only [executable, Bool.or_eq_true, beq_iff_eq, decide_eq_true_eq, ne_eq, zero]
  omega

theorem kindOf?_file (content : Bytes) (mode : Nat) :
    kindOf? (.file content mode) = some (.file (executable mode) content.length) := by
  rw [kindOf?, executable_eq]

theorem kindOf?_eq_directory_iff {object : Object} :
    kindOf? object = some .directory ↔ object = .directory := by
  cases object <;> simp [kindOf?]

theorem seen?_eq_some_iff {names : List Name} {entry : Entry} :
    seen? fs root names = some entry
      ↔ ∃ l object, fs.stat (root.descend names) = .ok (l, object)
          ∧ kindOf? object = some entry.kind
          ∧ entry.name = shown names ∧ entry.path = root.descend names := by
  unfold seen?
  cases found : fs.stat (root.descend names) with
  | error fault => simp
  | ok place =>
      obtain ⟨l, object⟩ := place
      obtain ⟨name, path, kind⟩ := entry
      cases listed : kindOf? object with
      | none => simp [listed]
      | some known => simp [listed, eq_comm, and_comm, and_left_comm, and_assoc]

/-! ## Going down -/

/-- On the way to something that is found, every path is that of a directory. -/
theorem stat_directory_of_descend {p : Path} {more : List Name} {found : Location × Object}
    (some : p.isEmpty = false) (deeper : more ≠ [])
    (ok : fs.stat (p.descend more) = .ok found) : ∃ l, fs.stat p = .ok (l, .directory) := by
  induction more generalizing p found with
  | nil => exact absurd rfl deeper
  | cons name rest ih =>
      cases rest with
      | nil => exact FileSystem.stat_of_stat_child ok some
      | cons next rest =>
          obtain ⟨l, directory⟩ := ih (p.child_not_empty name) (by simp) ok
          exact FileSystem.stat_of_stat_child directory some

/-- The directory test of the walk agrees with what the path leads to. -/
theorem leadsToDirectory_eq {here : Level} {outside : List Level} {name : Name} {left : Nat}
    {l : Location} {object : Object} {ahead : Bool}
    (entered : fs.reach false here.path = .ok (left, here.location))
    (told : leadsToDirectory fs outside (name :: here.location) (here.path.child name) = .ok ahead)
    (found : fs.stat (here.path.child name) = .ok (l, object)) :
    ahead = decide (object = .directory) := by
  obtain ⟨good, -⟩ := FileSystem.reach_of_stat_child found
  -- The lookup of `found` takes the one step whose object the directory test looks at, too.
  have step := found
  rw [FileSystem.stat_child good entered, FileSystem.walk] at step
  unfold leadsToDirectory at told
  split at step
  · simp [Except.bind] at step
  · cases stands : fs.get? (name :: here.location) with
    | none => simp [stands, Except.bind] at step
    | some kind =>
        cases kind with
        | directory =>
            simp [stands, FileSystem.walk, Except.bind] at step told
            simp [← step.2, ← told]
        | file content mode =>
            simp [stands, Except.bind] at step told
            simp [← step.2, ← told]
        | pipe =>
            simp [stands, Except.bind] at step told
            simp [← step.2, ← told]
        | link target =>
            -- A link may lead to a directory of `outside`, but then the test fails.
            simp only [stands, found] at told
            cases object with
            | directory =>
                simp only at told
                split at told
                · cases told
                · simpa using (Except.ok.inj told).symm
            | _ => simpa using (Except.ok.inj told).symm

theorem Open.cons_iff {above rest : List Name} {name : Name} (deeper : rest ≠ []) :
    Open fs rules root above (name :: rest)
      ↔ rules.ignores (relative (above ++ [name])) true = false
        ∧ Open fs rules root (above ++ [name]) rest := by
  constructor
  · rintro ⟨seen, passed⟩
    refine ⟨passed [name] rest rfl (by simp) deeper, ⟨?_, ?_⟩⟩
    · simpa using seen
    · intro up down parts some more
      simpa using passed (name :: up) down (by rw [parts]; rfl) (by simp) more
  · rintro ⟨first, seen, passed⟩
    refine ⟨by simpa using seen, ?_⟩
    intro up down parts some more
    cases up with
    | nil => exact absurd rfl some
    | cons head up =>
        obtain ⟨rfl, rfl⟩ : name = head ∧ rest = up ++ down := by simpa using parts
        cases up with
        | nil => simpa using first
        | cons next up => simpa using passed (next :: up) down rfl (by simp) more

theorem open_singleton_iff {above : List Name} {name : Name} :
    Open fs rules root above [name]
      ↔ ∃ entry, seen? fs root (above ++ [name]) = some entry ∧
          rules.ignores (relative (above ++ [name])) (decide (entry.kind = .directory)) = false := by
  constructor
  · exact fun visible => visible.seen
  · intro seen
    refine ⟨seen, ?_⟩
    intro up down parts some more
    have lengths := congrArg List.length parts
    have front := List.length_pos_iff.mpr some
    have back := List.length_pos_iff.mpr more
    simp only [List.length_cons, List.length_nil, List.length_append] at lengths
    omega

/-- Whatever is open through a name is found there, and not left out there. -/
theorem Open.first {above rest : List Name} {name : Name}
    (visible : Open fs rules root above (name :: rest)) :
    ∃ l object, fs.stat ((root.descend above).child name) = .ok (l, object)
      ∧ rules.ignores (relative (above ++ [name])) (decide (object = .directory)) = false
      ∧ (rest ≠ [] → object = .directory)
      ∧ (rest = [] → ∃ entry, seen? fs root (above ++ [name]) = some entry
          ∧ kindOf? object = some entry.kind) := by
  obtain ⟨⟨entry, seen, kept⟩, passed⟩ := visible
  obtain ⟨l, object, found, kind, -, -⟩ := seen?_eq_some_iff.mp seen
  cases rest with
  | nil =>
      refine ⟨l, object, by simpa [Path.descend_append] using found, ?_, by simp, ?_⟩
      · have same : decide (object = .directory) = decide (entry.kind = .directory) := by
          rw [decide_eq_decide, ← kindOf?_eq_directory_iff, kind, Option.some.injEq]
        rw [same]
        exact kept
      · exact fun _ => ⟨entry, seen, kind⟩
  | cons next rest =>
      have through : fs.stat (((root.descend above).child name).descend (next :: rest))
          = .ok (l, object) := by
        simpa [Path.descend_append] using found
      obtain ⟨m, directory⟩ :=
        stat_directory_of_descend (Path.child_not_empty _ name) (by simp) through
      refine ⟨m, .directory, directory, ?_, by simp, by simp⟩
      simpa using passed [name] (next :: rest) rfl (by simp) (by simp)

/-! ## Walking -/

/-- The next step of a walk. -/
theorem walk_cons (fs : FileSystem) (rules : IgnoreRules) (here : Level) (outside : List Level)
    (above : List Name) (name : Name) (rest : List Name) :
    walk fs rules here outside above (name :: rest) = (do
      let path := here.path.child name
      let names := above ++ [name]
      let ahead ← leadsToDirectory fs (here :: outside) (name :: here.location) path
      if rules.ignores (relative names) ahead then walk fs rules here outside above rest
      else
        match fs.stat path with
        | .error fault => .error (walkFailure path fault)
        | .ok (location, .directory) => do
            let inner ← walk fs rules ⟨location, path⟩ (here :: outside) names
              (fs.children location)
            let others ← walk fs rules here outside above rest
            return ⟨shown names, path, .directory⟩ :: (inner ++ others)
        | .ok (_, .file content mode) => do
            let others ← walk fs rules here outside above rest
            return ⟨shown names, path, .file (executable mode) content.length⟩ :: others
        | .ok _ => walk fs rules here outside above rest) := by
  rw [walk]
  simp only [bind, Except.bind]
  split
  · rfl
  · split
    · rfl
    · split <;> simp [*]

/-- How a walk that succeeds goes on from one name to the next. -/
inductive Walks (fs : FileSystem) (rules : IgnoreRules) :
    Level → List Level → List Name → List Name → List Entry → Prop
  | nil {here : Level} {outside : List Level} {above : List Name} :
      Walks fs rules here outside above [] []
  | leftOut {here : Level} {outside : List Level} {above rest : List Name} {name : Name}
      {entries : List Entry} {ahead : Bool} :
      leadsToDirectory fs (here :: outside) (name :: here.location) (here.path.child name)
        = .ok ahead →
      rules.ignores (relative (above ++ [name])) ahead = true →
      Walks fs rules here outside above rest entries →
      Walks fs rules here outside above (name :: rest) entries
  /-- A pipe, say, is passed over. -/
  | unlisted {here : Level} {outside : List Level} {above rest : List Name} {name : Name}
      {entries : List Entry} {location : Location} {object : Object} :
      fs.stat (here.path.child name) = .ok (location, object) →
      kindOf? object = none →
      Walks fs rules here outside above rest entries →
      Walks fs rules here outside above (name :: rest) entries
  | file {here : Level} {outside : List Level} {above rest : List Name} {name : Name}
      {others : List Entry} {ahead : Bool} {location : Location} {content : Bytes} {mode : Nat} :
      leadsToDirectory fs (here :: outside) (name :: here.location) (here.path.child name)
        = .ok ahead →
      rules.ignores (relative (above ++ [name])) ahead = false →
      fs.stat (here.path.child name) = .ok (location, .file content mode) →
      Walks fs rules here outside above rest others →
      Walks fs rules here outside above (name :: rest)
        (⟨shown (above ++ [name]), here.path.child name, .file (executable mode) content.length⟩
          :: others)
  | directory {here : Level} {outside : List Level} {above rest : List Name} {name : Name}
      {inner others : List Entry} {ahead : Bool} {location : Location} :
      leadsToDirectory fs (here :: outside) (name :: here.location) (here.path.child name)
        = .ok ahead →
      rules.ignores (relative (above ++ [name])) ahead = false →
      fs.stat (here.path.child name) = .ok (location, .directory) →
      Walks fs rules ⟨location, here.path.child name⟩ (here :: outside) (above ++ [name])
        (fs.children location) inner →
      Walks fs rules here outside above rest others →
      Walks fs rules here outside above (name :: rest)
        (⟨shown (above ++ [name]), here.path.child name, .directory⟩ :: (inner ++ others))

/-- The branches of a walk are told apart here, and nowhere else for a walk that succeeds. -/
theorem walks_of_walk {here : Level} {outside : List Level} {above names : List Name}
    {entries : List Entry} (walked : walk fs rules here outside above names = .ok entries) :
    Walks fs rules here outside above names entries := by
  induction here, outside, above, names using walk.induct fs generalizing entries with
  | case1 here outside above =>
      rw [walk] at walked
      cases walked
      exact .nil
  | case2 here outside above name rest _ _ ihRest =>
      rename_i ihInner
      rw [walk_cons] at walked
      obtain ⟨ahead, told, walked⟩ := bind_eq_ok_iff.mp walked
      split at walked
      · exact .leftOut told ‹_› (ihRest walked)
      · rename_i kept
        replace kept := Bool.eq_false_iff.mpr kept
        split at walked
        · cases walked
        · rename_i location found
          obtain ⟨inner, walkedInner, walked⟩ := bind_eq_ok_iff.mp walked
          obtain ⟨others, walkedOthers, done⟩ := bind_eq_ok_iff.mp walked
          obtain rfl := Except.ok.inj done
          exact .directory told kept found (ihInner location found walkedInner)
            (ihRest walkedOthers)
        · rename_i location content mode found
          obtain ⟨others, walkedOthers, done⟩ := bind_eq_ok_iff.mp walked
          obtain rfl := Except.ok.inj done
          exact .file told kept found (ihRest walkedOthers)
        · rename_i place notDirectory notFile found
          obtain ⟨location, object⟩ := place
          have unlisted : kindOf? object = none := by
            cases object with
            | directory => exact absurd rfl (notDirectory location)
            | file content mode => exact absurd rfl (notFile location content mode)
            | link target => rfl
            | pipe => rfl
          exact .unlisted found unlisted (ihRest walked)

/-- The walk stands in the directory that the names `above` lead to. -/
structure Stands (fs : FileSystem) (root : Path) (here : Level) (above : List Name) : Prop where
  path : here.path = root.descend above
  entered : ∃ left, fs.reach false here.path = .ok (left, here.location)

/-! ### A single name -/

section Stands

variable {here : Level} {outside : List Level} {above : List Name} {name : Name} {ahead : Bool}
  {l : Location} {object : Object} {kind : EntryKind}

theorem Stands.child_eq (stands : Stands fs root here above) (name : Name) :
    root.descend (above ++ [name]) = here.path.child name := by
  rw [stands.path, Path.child_descend]

theorem Stands.seen?_child (stands : Stands fs root here above)
    (found : fs.stat (here.path.child name) = .ok (l, object)) (listed : kindOf? object = some kind) :
    seen? fs root (above ++ [name])
      = some ⟨shown (above ++ [name]), here.path.child name, kind⟩ := by
  rw [seen?, stands.child_eq, found]
  simp only [listed, Option.map_some]

/-- Nothing is open through a name that is left out. -/
theorem Stands.not_open_of_ignored (stands : Stands fs root here above)
    (told : leadsToDirectory fs (here :: outside) (name :: here.location) (here.path.child name)
      = .ok ahead)
    (ignored : rules.ignores (relative (above ++ [name])) ahead = true) (more : List Name) :
    ¬ Open fs rules root above (name :: more) := by
  intro visible
  obtain ⟨left, entered⟩ := stands.entered
  obtain ⟨l, object, found, kept, -⟩ := visible.first
  rw [← stands.path] at found
  rw [← leadsToDirectory_eq entered told found, ignored] at kept
  cases kept

/-- Nothing is open through what is neither a directory nor a file. -/
theorem Stands.not_open_of_unlisted (stands : Stands fs root here above)
    (found : fs.stat (here.path.child name) = .ok (l, object)) (unlisted : kindOf? object = none)
    (more : List Name) : ¬ Open fs rules root above (name :: more) := by
  intro visible
  obtain ⟨l', object', found', -, deeper, own⟩ := visible.first
  rw [← stands.path, found] at found'
  obtain rfl := (Prod.mk.inj (Except.ok.inj found')).2
  cases more with
  | nil =>
      obtain ⟨entry, -, listed⟩ := own rfl
      rw [unlisted] at listed
      cases listed
  | cons next more =>
      rw [deeper (by simp)] at unlisted
      cases unlisted

/-- Nothing is open below a file. -/
theorem Stands.not_open_below (stands : Stands fs root here above)
    (found : fs.stat (here.path.child name) = .ok (l, object)) (other : object ≠ .directory)
    (next : Name) (more : List Name) : ¬ Open fs rules root above (name :: next :: more) := by
  intro visible
  obtain ⟨l', object', found', -, deeper, -⟩ := visible.first
  rw [← stands.path, found] at found'
  obtain rfl := (Prod.mk.inj (Except.ok.inj found')).2
  exact other (deeper (by simp))

/-- What is not left out and has a kind is open. -/
theorem Stands.open_child (stands : Stands fs root here above)
    (told : leadsToDirectory fs (here :: outside) (name :: here.location) (here.path.child name)
      = .ok ahead)
    (kept : rules.ignores (relative (above ++ [name])) ahead = false)
    (found : fs.stat (here.path.child name) = .ok (l, object)) (listed : kindOf? object = some kind) :
    Open fs rules root above [name] := by
  obtain ⟨left, entered⟩ := stands.entered
  refine open_singleton_iff.mpr ⟨_, stands.seen?_child found listed, ?_⟩
  have same : decide (kind = .directory) = decide (object = .directory) := by
    rw [decide_eq_decide, ← kindOf?_eq_directory_iff, listed, Option.some.injEq]
  rw [same, ← leadsToDirectory_eq entered told found]
  exact kept

/-- The walk stands in a directory that it enters. -/
theorem Stands.enter (stands : Stands fs root here above)
    (found : fs.stat (here.path.child name) = .ok (l, .directory)) :
    Stands fs root ⟨l, here.path.child name⟩ (above ++ [name]) :=
  ⟨(stands.child_eq name).symm, (FileSystem.stat_eq_directory_iff.mp found).2⟩

end Stands

/-! ### All names -/

/-- What a walk finds is what is open through some of the names. -/
structure Finds (fs : FileSystem) (rules : IgnoreRules) (root : Path) (above names : List Name)
    (entries : List Entry) (paths : List (List Name)) : Prop where
  seen : paths.map (seen? fs root) = entries.map some
  once : paths.Nodup
  visible : ∀ path, path ∈ paths ↔
    ∃ name ∈ names, ∃ rest, path = above ++ name :: rest ∧ Open fs rules root above (name :: rest)

theorem Finds.nil (above : List Name) : Finds fs rules root above [] [] [] where
  seen := rfl
  once := List.nodup_nil
  visible := by simp

/-- A name through which nothing is open changes nothing. -/
theorem Finds.skip {above rest : List Name} {name : Name} {entries : List Entry}
    {paths : List (List Name)} (finds : Finds fs rules root above rest entries paths)
    (closed : ∀ more, ¬ Open fs rules root above (name :: more)) :
    Finds fs rules root above (name :: rest) entries paths where
  seen := finds.seen
  once := finds.once
  visible := by
    intro path
    rw [finds.visible]
    constructor
    · rintro ⟨other, member, found⟩
      exact ⟨other, List.mem_cons_of_mem _ member, found⟩
    · rintro ⟨other, member, more, same, isOpen⟩
      rcases List.mem_cons.mp member with rfl | member
      · exact absurd isOpen (closed more)
      · exact ⟨other, member, more, same, isOpen⟩

/-- A name that is open itself, with what is found below it. -/
theorem Finds.add {above rest children : List Name} {name : Name} {entry : Entry}
    {inner others : List Entry} {innerPaths otherPaths : List (List Name)}
    (fresh : name ∉ rest) (own : seen? fs root (above ++ [name]) = some entry)
    (isOpen : Open fs rules root above [name])
    (below : Finds fs rules root (above ++ [name]) children inner innerPaths)
    (deeper : ∀ next more, Open fs rules root above (name :: next :: more) ↔
      next ∈ children ∧ Open fs rules root (above ++ [name]) (next :: more))
    (finds : Finds fs rules root above rest others otherPaths) :
    Finds fs rules root above (name :: rest) (entry :: (inner ++ others))
      ((above ++ [name]) :: (innerPaths ++ otherPaths)) where
  seen := by simp [own, below.seen, finds.seen]
  once := by
    -- A path of the others starts with another name, and a path of the inner ones is longer.
    have apart : ∀ path ∈ otherPaths, ∀ more, path ≠ above ++ name :: more := by
      intro path member more same
      obtain ⟨other, known, rest', path', -⟩ := (finds.visible path).mp member
      rw [same] at path'
      have heads := List.append_cancel_left path'
      exact fresh ((List.cons.inj heads).1 ▸ known)
    have longer : ∀ path ∈ innerPaths, ∃ next more, path = above ++ name :: next :: more := by
      intro path member
      obtain ⟨next, -, more, same, -⟩ := (below.visible path).mp member
      exact ⟨next, more, by simpa using same⟩
    refine List.nodup_cons.mpr ⟨?_, List.nodup_append.mpr ⟨below.once, finds.once, ?_⟩⟩
    · intro member
      rcases List.mem_append.mp member with member | member
      · obtain ⟨next, more, same⟩ := longer _ member
        simp at same
      · exact apart _ member [] rfl
    · intro path memberI path' memberO same
      obtain ⟨next, more, known⟩ := longer path memberI
      exact apart path' memberO (next :: more) (same ▸ known)
  visible := by
    intro path
    simp only [List.mem_cons, List.mem_append, below.visible, finds.visible]
    constructor
    · rintro (rfl | ⟨next, member, more, rfl, found⟩ | ⟨other, member, more, same, found⟩)
      · exact ⟨name, Or.inl rfl, [], rfl, isOpen⟩
      · exact ⟨name, Or.inl rfl, next :: more, by simp, (deeper next more).mpr ⟨member, found⟩⟩
      · exact ⟨other, Or.inr member, more, same, found⟩
    · rintro ⟨other, rfl | member, more, rfl, found⟩
      · cases more with
        | nil => exact Or.inl rfl
        | cons next more =>
            have inside := (deeper next more).mp found
            exact Or.inr (Or.inl ⟨next, inside.1, more, by simp, inside.2⟩)
      · exact Or.inr (Or.inr ⟨other, member, more, rfl, found⟩)

/-- Whatever is open through a name stands in the directory where the walk is. -/
theorem Open.mem_children {above rest : List Name} {name : Name} {location : Location} {left : Nat}
    (entered : fs.reach false (root.descend above) = .ok (left, location))
    (visible : Open fs rules root above (name :: rest)) : name ∈ fs.children location := by
  obtain ⟨l, object, found, -⟩ := visible.first
  obtain ⟨good, -⟩ := FileSystem.reach_of_stat_child found
  rw [FileSystem.stat_child good entered, FileSystem.walk] at found
  rw [FileSystem.mem_children]
  cases stands : fs.get? (name :: location) with
  | some object' => exact ⟨object', rfl⟩
  | none =>
      split at found <;> simp [stands, Except.bind] at found

/-- Everything below a directory that is not left out is in that directory's list of names. -/
theorem open_deeper_iff {above : List Name} {name : Name} {location : Location} {left : Nat}
    (entered : fs.reach false (root.descend (above ++ [name])) = .ok (left, location))
    (kept : rules.ignores (relative (above ++ [name])) true = false) (next : Name)
    (more : List Name) :
    Open fs rules root above (name :: next :: more) ↔
      next ∈ fs.children location ∧ Open fs rules root (above ++ [name]) (next :: more) := by
  rw [Open.cons_iff (by simp)]
  constructor
  · rintro ⟨-, visible⟩
    exact ⟨visible.mem_children entered, visible⟩
  · rintro ⟨-, visible⟩
    exact ⟨kept, visible⟩

/-- The walk itself: the induction is on how it goes on, over the names of a directory and into the
directories among them. -/
theorem walk_visible (well : fs.WellFormed) {here : Level} {outside : List Level}
    {above names : List Name} {entries : List Entry} (stands : Stands fs root here above)
    (distinct : names.Nodup) (walked : walk fs rules here outside above names = .ok entries) :
    ∃ paths, Finds fs rules root above names entries paths := by
  have walks := walks_of_walk walked
  clear walked
  induction walks with
  | nil => exact ⟨[], .nil _⟩
  | leftOut told ignored _ ih =>
      obtain ⟨paths, finds⟩ := ih stands distinct.of_cons
      exact ⟨paths, finds.skip (stands.not_open_of_ignored told ignored)⟩
  | unlisted found unlisted _ ih =>
      obtain ⟨paths, finds⟩ := ih stands distinct.of_cons
      exact ⟨paths, finds.skip (stands.not_open_of_unlisted found unlisted)⟩
  | @file _ _ above _ name _ _ _ content mode told kept found _ ih =>
      obtain ⟨fresh, distinct⟩ := List.nodup_cons.mp distinct
      obtain ⟨paths, finds⟩ := ih stands distinct
      have listed := kindOf?_file content mode
      -- A file is like a directory without children, below which nothing is open either.
      have nothing : ∀ next more, ¬ Open fs rules root above (name :: next :: more) :=
        stands.not_open_below found (by simp)
      exact ⟨_, .add fresh (stands.seen?_child found listed)
        (stands.open_child told kept found listed) (.nil _) (by simp [nothing]) finds⟩
  | @directory _ _ _ _ _ _ _ ahead _ told kept found _ _ ihInner ihRest =>
      obtain ⟨fresh, distinct⟩ := List.nodup_cons.mp distinct
      have inside := stands.enter found
      obtain ⟨left, entered⟩ := stands.entered
      obtain ⟨left', entered'⟩ := inside.entered
      rw [inside.path] at entered'
      obtain ⟨innerPaths, below⟩ := ihInner inside (FileSystem.nodup_children well _)
      obtain ⟨otherPaths, finds⟩ := ihRest stands distinct
      have through : ahead = true := by simpa using leadsToDirectory_eq entered told found
      exact ⟨_, .add fresh (stands.seen?_child found rfl) (stands.open_child told kept found rfl)
        below (open_deeper_iff entered' (through ▸ kept)) finds⟩

end Listing
end StackSynth
