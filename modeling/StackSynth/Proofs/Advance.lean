import StackSynth.Proofs.Places
import StackSynth.Proofs.Staging

/-!
# Advance — steps in an output directory

Of what stands in an output directory, the manifest and the versions of assets are to last.  Every
step of a run keeps them, except for those that it is said to lose, puts nothing into versions
but what it is said to put there, and leaves the directory fit for the next step.

* `Tracked` — the places that are to last;
* `Standing` — what holds of an output directory between steps;
* `Advance` — a step that says what is gone and what is new, with `Advance.trans`;
* `Standing.made`, `placed`, `staged`, `erased`, `pruned` — the steps that there are.
-/

namespace StackSynth

open FileSystem

/-- Names below the output directory that lead to a version of an asset: `stacks`, the stack,
`assets`, the asset and the version. -/
def versionDepth : Nat := 5

/-- The manifest, or something in a version of an asset. -/
def Tracked (root l : Location) : Prop :=
  l = Manifest.node :: root ∨ ∃ names, versionDepth < names.length ∧ l = names ++ root

/-- What holds of an output directory before and after every step. -/
structure Standing (outdir : Path) (root : Location) (fs : FileSystem) : Prop where
  sound : Sound fs
  rooted : Rooted fs outdir root
  plain : Plain fs root
  /-- The current directory is no version of an asset. -/
  away : ∀ names, versionDepth ≤ names.length → fs.current ≠ names ++ root
  /-- Where there are assets, the path leads to the root. -/
  found : ∀ names, versionDepth < names.length → fs.get? (names ++ root) ≠ none →
    ∃ left, fs.reach false outdir = .ok (left, root)

/-- Nothing that is to last has changed, except for what is gone, and versions have nothing in
them that was not there, except for what is new. -/
structure Advance (outdir : Path) (root : Location) (gone new : Location → Prop)
    (fs after : FileSystem) : Prop where
  standing : Standing outdir root after
  outside : GrownOutside root fs after
  kept : ∀ l object, Tracked root l → ¬ gone l → fs.get? l = some object →
    after.get? l = some object
  added : ∀ names, versionDepth < names.length → ¬ new (names ++ root) →
    fs.get? (names ++ root) = none → after.get? (names ++ root) = none

/-- No place, of those that are gone or new. -/
def Nothing (_ : Location) : Prop := False

/-- Any place, of those that are gone or new. -/
def Anything (_ : Location) : Prop := True

variable {outdir : Path} {root : Location} {gone lost new fresh : Location → Prop}
  {fs mid after : FileSystem}

theorem below_of_length {names : List Name} {n : Nat} (deep : n < names.length) :
    Location.Below root (names ++ root) := by
  refine Location.below_iff.mpr ⟨names, ?_, rfl⟩
  rintro rfl
  simp at deep

/-! ## Steps one after another -/

namespace Advance

theorem refl (standing : Standing outdir root fs) : Advance outdir root gone new fs fs where
  standing := standing
  outside := .refl root fs
  kept := fun _ _ _ _ stands => stands
  added := fun _ _ _ nothing => nothing

theorem trans (first : Advance outdir root gone new fs mid)
    (second : Advance outdir root gone new mid after) : Advance outdir root gone new fs after where
  standing := second.standing
  outside := first.outside.trans second.outside
  kept := fun l object tracked stays stands =>
    second.kept l object tracked stays (first.kept l object tracked stays stands)
  added := fun names deep other nothing =>
    second.added names deep other (first.added names deep other nothing)

theorem mono (advance : Advance outdir root lost fresh fs after) (lose : ∀ l, lost l → gone l)
    (gain : ∀ l, fresh l → new l) : Advance outdir root gone new fs after where
  standing := advance.standing
  outside := advance.outside
  kept := fun l object tracked stays stands =>
    advance.kept l object tracked (fun isLost => stays (lose l isLost)) stands
  added := fun names deep other nothing =>
    advance.added names deep (fun isFresh => other (gain _ isFresh)) nothing

/-- A step that loses nothing may be said to lose something. -/
theorem losing (advance : Advance outdir root Nothing new fs after) :
    Advance outdir root gone new fs after :=
  advance.mono (fun _ impossible => impossible.elim) fun _ isNew => isNew

/-- A step that puts nothing into versions may be said to put something there. -/
theorem gaining (advance : Advance outdir root gone Nothing fs after) :
    Advance outdir root gone new fs after :=
  advance.mono (fun _ isGone => isGone) fun _ impossible => impossible.elim

/-- It does not matter what happens to places that are not to last. -/
theorem of_untracked (advance : Advance outdir root lost new fs after)
    (other : ∀ l, Tracked root l → ¬ lost l) : Advance outdir root Nothing new fs after where
  standing := advance.standing
  outside := advance.outside
  kept := fun l object tracked _ stands => advance.kept l object tracked (other l tracked) stands
  added := advance.added

end Advance

/-- What stands outside stays there. -/
theorem FileSystem.GrownOutside.objects (grown : GrownOutside root fs after) {l : Location}
    {object : Object} (away : ¬ Location.Below root l) (stands : fs.get? l = some object) :
    after.get? l = some object := by
  rcases grown.outside l away with same | ⟨nothing, -⟩
  · exact same.trans stands
  · rw [nothing] at stands
    cases stands

theorem FileSystem.GrownOutside.of_same (current : after.current = fs.current)
    (same : ∀ l, ¬ Location.Below root l → after.get? l = fs.get? l) : GrownOutside root fs after :=
  ⟨current, fun l away => Or.inl (same l away)⟩

namespace Standing

/-- The path still leads to the root. -/
theorem entered (standing : Standing outdir root fs) (grown : GrownOutside root fs after)
    (entered : ∃ left, fs.reach false outdir = .ok (left, root)) :
    ∃ left, after.reach false outdir = .ok (left, root) := by
  obtain ⟨left, reached⟩ := entered
  exact ⟨left, standing.rooted.enters reached grown.current fun _ _ away stands =>
    grown.objects away stands⟩

/-- A step keeps what holds if what is new in versions is put there by path. -/
theorem step (standing : Standing outdir root fs) (sound : Sound after)
    (grown : GrownOutside root fs after) (plain : Plain after root)
    (found : ∀ names, versionDepth < names.length → fs.get? (names ++ root) = none →
      after.get? (names ++ root) ≠ none → ∃ left, fs.reach false outdir = .ok (left, root)) :
    Standing outdir root after where
  sound := sound
  rooted := standing.rooted.grown grown
  plain := plain
  away := fun names deep => grown.current ▸ standing.away names deep
  found := by
    intro names deep stands
    refine standing.entered grown ?_
    by_cases nothing : fs.get? (names ++ root) = none
    · exact found names deep nothing stands
    · exact standing.found names deep nothing

/-! ## The steps -/

theorem agrees (standing : Standing outdir root fs) (sound : Sound after) (agrees : Agrees fs after) :
    Advance outdir root Nothing Nothing fs after where
  standing := by
    refine standing.step sound (agrees.grown.outside root) (standing.plain.grown agrees.grown) ?_
    intro names _ nothing stands
    rw [agrees.objects] at stands
    exact absurd nothing stands
  outside := agrees.grown.outside root
  kept := fun l object _ _ stands => (agrees.objects l).trans stands
  added := fun names _ _ nothing => (agrees.objects _).trans nothing

/-- Nothing in a version is made on the way to one. -/
theorem not_made (standing : Standing outdir root fs) {names : List Name}
    (few : names.length ≤ versionDepth) (made : Made (outdir.descend names) fs after)
    {others : List Name} (deep : versionDepth < others.length)
    (nothing : fs.get? (others ++ root) = none) : after.get? (others ++ root) = none := by
  cases stands : after.get? (others ++ root) with
  | none => rfl
  | some object =>
      obtain rfl := made.grown.added nothing stands
      obtain ⟨up, rest, rfl, -, same⟩ := standing.rooted.makes_descend standing.plain
        (below_of_length deep) (made.places _ nothing stands)
      have length := congrArg List.length same
      simp only [List.length_append, List.length_reverse] at length few
      omega

/-- Directories that lead to a version are made. -/
theorem made (standing : Standing outdir root fs) {names : List Name}
    (few : names.length ≤ versionDepth) (made : Made (outdir.descend names) fs after) :
    Advance outdir root Nothing Nothing fs after where
  standing := by
    refine standing.step made.sound (made.grown.outside root) (standing.plain.grown made.grown) ?_
    intro others deep nothing stands
    exact absurd (standing.not_made few made deep nothing) stands
  outside := made.grown.outside root
  kept := fun l object _ _ stands => made.grown.objects stands
  added := fun others deep _ nothing => standing.not_made few made deep nothing

/-- A file is put below the root, above all versions. -/
theorem placed (standing : Standing outdir root fs)
    (entered : ∃ left, fs.reach false outdir = .ok (left, root)) {names : List Name}
    (some : names ≠ []) (few : names.length ≤ versionDepth) {content : Bytes} {mode : Nat}
    (placed : Placed (names ++ root) content mode fs after) :
    Advance outdir root (· = names ++ root) Nothing fs after := by
  have below : Location.Below root (names ++ root) := Location.below_iff.mpr ⟨names, some, rfl⟩
  have grown : GrownOutside root fs after := by
    refine .of_same placed.current fun l away => ?_
    rw [placed.objects, if_neg]
    rintro rfl
    exact away below
  refine ⟨standing.step placed.sound grown ?_ fun _ _ _ _ => entered, grown, ?_, ?_⟩
  · intro l object inside stands
    rw [placed.objects] at stands
    split at stands
    · exact Or.inr ⟨content, mode, (Option.some.inj stands).symm⟩
    · exact standing.plain l object inside stands
  · intro l object _ stays stands
    rw [placed.objects, if_neg stays]
    exact stands
  · -- Only inside of versions nothing may come, and the file is not that deep.
    intro others deep _ nothing
    rw [placed.objects, if_neg]
    · exact nothing
    · intro same
      rw [List.append_cancel_right same] at deep
      omega

/-- A payload is staged where nothing was. -/
theorem staged (standing : Standing outdir root fs)
    (entered : ∃ left, fs.reach false outdir = .ok (left, root)) {names : List Name}
    (some : names ≠ []) {payload : Payload} (nothing : fs.get? (names ++ root) = none)
    (staged : Packaging.Staged payload (names ++ root) fs after) :
    Advance outdir root Nothing (names ++ root <:+ ·) fs after := by
  have below : Location.Below root (names ++ root) := Location.below_iff.mpr ⟨names, some, rfl⟩
  have grown : GrownOutside root fs after :=
    .of_same staged.current fun l away => staged.outside l fun within => away (below.suffix within)
  refine ⟨standing.step staged.sound grown ?_ fun _ _ _ _ => entered, grown, ?_, ?_⟩
  · intro l object inside stands
    by_cases within : names ++ root <:+ l
    · exact staged.plain_within within stands
    · rw [staged.outside l within] at stands
      exact standing.plain l object inside stands
  · intro l object _ _ stands
    exact (staged.extends nothing).objects stands
  · intro others _ other none
    rw [staged.outside _ other]
    exact none

/-- Whatever only goes away below the root is no loss to the directory itself. -/
theorem removed (standing : Standing outdir root fs) (sound : Sound after)
    (current : after.current = fs.current) {base : Location} (inside : Location.Below root base)
    (objects : ∀ l, after.get? l = fs.get? l ∨ base <:+ l ∧ after.get? l = none) :
    Standing outdir root after ∧ GrownOutside root fs after
      ∧ ∀ l, fs.get? l = none → after.get? l = none := by
  have grown : GrownOutside root fs after := by
    refine .of_same current fun l away => ?_
    rcases objects l with same | ⟨within, -⟩
    · exact same
    · exact absurd (inside.suffix within) away
  refine ⟨standing.step sound grown ?_ ?_, grown, ?_⟩
  · intro l object below stands
    rcases objects l with same | ⟨-, nothing⟩
    · exact standing.plain l object below (same ▸ stands)
    · rw [nothing] at stands
      cases stands
  · -- Nothing comes, so that nothing deep can have come.
    intro names _ nothing stands
    rcases objects (names ++ root) with same | ⟨-, removed⟩
    · exact absurd (same.trans nothing) stands
    · exact absurd removed stands
  · intro l nothing
    rcases objects l with same | ⟨-, removed⟩
    · exact same.trans nothing
    · exact removed

/-- The directory of a version is removed while it is empty. -/
theorem erased (standing : Standing outdir root fs) {names : List Name}
    (depth : names.length = versionDepth) (empty : ∀ name, fs.get? (name :: (names ++ root)) = none) :
    Advance outdir root Nothing Nothing fs (fs.erase (names ++ root)) := by
  have below : Location.Below root (names ++ root) :=
    below_of_length (n := 0) (by rw [depth]; decide)
  have objects := fun l => get?_erase fs (names ++ root) l below.ne_nil
  have sound : Sound (fs.erase (names ++ root)) := by
    refine ⟨standing.sound.toWellFormed.erase below.ne_nil empty, ?_⟩
    have other : fs.current ≠ names ++ root := standing.away names depth.ge
    show (fs.erase (names ++ root)).get? fs.current = _
    rw [objects, if_neg other]
    exact standing.sound.here
  obtain ⟨standing', grown, gone⟩ := standing.removed sound rfl below fun l => by
    rw [objects]
    split
    · rename_i same
      exact Or.inr ⟨same ▸ List.suffix_refl _, rfl⟩
    · exact Or.inl rfl
  refine ⟨standing', grown, ?_, fun _ _ _ nothing => gone _ nothing⟩
  intro l object tracked _ stands
  rw [objects, if_neg]
  · exact stands
  · rintro same
    -- What is tracked is the manifest or inside of a version, and so it is at another depth.
    rcases tracked with rfl | ⟨others, deep, rfl⟩
    · have length := congrArg List.length same
      simp only [List.length_cons, List.length_append, depth, versionDepth] at length
      omega
    · have length := congrArg List.length same
      simp only [List.length_append] at length
      omega

/-- A version is removed with all that is in it. -/
theorem pruned (standing : Standing outdir root fs) {names : List Name}
    (depth : names.length = versionDepth) :
    Advance outdir root (names ++ root <:+ ·) Nothing fs (fs.eraseTree (names ++ root)) := by
  have below : Location.Below root (names ++ root) :=
    below_of_length (n := 0) (by rw [depth]; decide)
  have objects := fun l => get?_eraseTree fs (names ++ root) l below.ne_nil
  -- Nobody works in a version, so that the current directory stays.
  have away : ¬ names ++ root <:+ fs.current := by
    rintro ⟨front, current⟩
    refine standing.away (front ++ names) ?_ ?_
    · simp [depth]
    · rw [← current, List.append_assoc]
  have sound := standing.sound.eraseTree below.ne_nil away
  obtain ⟨standing', grown, gone⟩ := standing.removed sound rfl below fun l => by
    rw [objects]
    split
    · rename_i within
      exact Or.inr ⟨Location.within_iff.mp within, rfl⟩
    · exact Or.inl rfl
  refine ⟨standing', grown, ?_, fun _ _ _ nothing => gone _ nothing⟩
  intro l object _ stays stands
  rw [objects, if_neg]
  · exact stands
  · exact fun within => stays (Location.within_iff.mp within)

end Standing

/-! ## Look-ups -/

/-- A file is read where it stands. -/
theorem Standing.readFile (standing : Standing outdir root fs) {names : List Name} (some : names ≠ [])
    (straight : Straight fs outdir root names) {content : Bytes}
    (stands : fs.get? (names.reverse ++ root) = Option.some (.file content 0o600)) :
    fs.readFile (outdir.descend names) = .ok (content, 0o600) := by
  have found := (standing.rooted.stat_descend standing.plain standing.sound.toWellFormed some).mpr
    ⟨straight, rfl, stands⟩
  exact readFile_of_stat found (by decide)

/-- What is found in a version is found again, unless it is gone. -/
theorem Advance.stat (advance : Advance outdir root gone new fs after) (standing : Standing outdir root fs)
    {names : List Name} (deep : versionDepth < names.length) (stays : ¬ gone (names.reverse ++ root))
    {place : Location × Object} (ok : fs.stat (outdir.descend names) = .ok place) :
    after.stat (outdir.descend names) = .ok place := by
  obtain ⟨l, object⟩ := place
  have some : names ≠ [] := by
    rintro rfl
    simp at deep
  rw [standing.rooted.stat_descend standing.plain standing.sound.toWellFormed some] at ok
  obtain ⟨⟨spelled, fit, entered⟩, rfl, stands⟩ := ok
  have standing' := advance.standing
  rw [standing'.rooted.stat_descend standing'.plain standing'.sound.toWellFormed some]
  have tracked : Tracked root (names.reverse ++ root) :=
    Or.inr ⟨names.reverse, by simpa using deep, rfl⟩
  exact ⟨⟨spelled, fit, standing.entered advance.outside entered⟩, rfl,
    advance.kept _ object tracked stays stands⟩

end StackSynth
