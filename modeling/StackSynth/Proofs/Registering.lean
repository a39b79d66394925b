import StackSynth.Proofs.Construction
import StackSynth.Proofs.Pruning
import StackSynth.Proofs.Writing

/-!
# Registering — assets of a stack

Packaging keeps everything that is to last, and pruning removes other versions of the same asset.
So when assets were registered one after another, what is gone belongs to earlier versions of
these assets, and the artifacts of all of them are there.

* `Packaging.package_advance`, `package_failed` — packaging, when it succeeds and when it fails;
* `Packaging.prune_ends` — pruning, however it ends;
* `Stack.addAsset_advance`, `addAsset_failed` — registering, when it succeeds and when it fails;
* `Stack.Built`, `Stack.Built.add` — what holds when some assets are registered.
-/

namespace StackSynth

open FileSystem

namespace Packaging

variable {outdir source : Path} {root : Location} {fs mid after : FileSystem} {names : List Name}
  {type : AssetType}

/-! ## Packaging -/

/-- Nothing is in a version that is staged below `base`. -/
def Unused (fs : FileSystem) (base : Location) : Prop :=
  ∀ rest, 2 ≤ rest.length → fs.get? (rest ++ base) = none

/-- The directory of a version is made, or was there. -/
theorem version_made (standing : Standing outdir root fs) {short : Name}
    (run : createAll ((outdir.descend names).child short) fs = .ok () mid) :
    Made (outdir.descend (names ++ [short])) fs mid
      ∧ (∃ left, mid.reach false outdir = .ok (left, root))
      ∧ ∃ left, mid.reach false ((outdir.descend names).child short)
        = .ok (left, short :: (names.reverse ++ root)) := by
  rw [Path.child_descend] at run ⊢
  have made := createAll_made standing.sound (Or.inl ⟨_, run⟩)
  obtain ⟨found, entered⟩ :=
    standing.rooted.createAll_ok standing.plain standing.sound (by simp) run
  refine ⟨made, found, ?_⟩
  simpa using entered

theorem child_child_descend (p : Path) (names : List Name) (short name : Name) :
    ((p.descend names).child short).child name = p.descend (names ++ [short, name]) := by
  rw [Path.child_descend, Path.child_descend, List.append_assoc]
  rfl

/-- Look-ups of what is in a version go straight down from the output directory. -/
theorem stat_version (standing : Standing outdir root fs) {short name : Name} {l : Location}
    {object : Object} :
    fs.stat (outdir.descend (names ++ [short, name])) = .ok (l, object)
      ↔ Straight fs outdir root (names ++ [short, name])
        ∧ l = name :: short :: (names.reverse ++ root) ∧ fs.get? l = some object := by
  have place : (names ++ [short, name]).reverse ++ root
      = name :: short :: (names.reverse ++ root) := by simp
  rw [standing.rooted.stat_descend standing.plain standing.sound.toWellFormed (by simp), place]

/-- Neither was there anything in a version where nothing was found, nor was it made on the way. -/
theorem vacant_version (standing : Standing outdir root fs)
    (depth : names.length + 1 = versionDepth) {short name : Name}
    (made : Made (outdir.descend (names ++ [short])) fs mid)
    (spelled : WellSpelled (outdir.descend (names ++ [short, name])))
    (fit : Fit (names ++ [short, name]))
    (missing : fs.exists? (outdir.descend (names ++ [short, name])) = false) :
    mid.get? (name :: short :: (names.reverse ++ root)) = none := by
  have deep : versionDepth < ([name, short] ++ names.reverse).length := by
    simp only [List.length_append, List.length_cons, List.length_nil, List.length_reverse]
    omega
  refine standing.not_made (by simp [depth]) made deep ?_
  cases stands : fs.get? ([name, short] ++ names.reverse ++ root) with
  | none => rfl
  | some object =>
      -- Had something stood there, it would have been found.
      have straight : Straight fs outdir root (names ++ [short, name]) :=
        ⟨spelled, fit, standing.found _ deep (stands ▸ Option.some_ne_none object)⟩
      have ok := (stat_version standing).mpr ⟨straight, rfl, stands⟩
      simp [FileSystem.exists?, ok] at missing

/-- An artifact that is found was in its version before. -/
theorem stat_of_exists (standing : Standing outdir root fs) {short name : Name}
    (there : fs.exists? (outdir.descend (names ++ [short, name])) = true) :
    ∃ object, fs.stat (outdir.descend (names ++ [short, name]))
        = .ok (name :: short :: (names.reverse ++ root), object)
      ∧ fs.get? (name :: short :: (names.reverse ++ root)) = some object := by
  obtain ⟨⟨l, object⟩, found⟩ := exists_iff.mp there
  obtain ⟨-, rfl, stands⟩ := (stat_version standing).mp found
  exact ⟨object, found, stands⟩

/-- An artifact that is staged is found in its version, and nothing else is new. -/
theorem stage_advance (standing : Standing outdir root fs)
    (depth : names.length + 1 = versionDepth) {payload : Payload} (isOf : payload.IsOf fs source)
    {short name : Name} {entries : List Entry} {hash : ContentHash}
    (missing : fs.exists? (outdir.descend (names ++ [short, name])) = false)
    (examined : examine fs source payload.type = .ok (entries, hash))
    (made : createAll ((outdir.descend names).child short) fs = .ok () mid)
    (run : stage source payload.type entries ((outdir.descend names).child short)
      (((outdir.descend names).child short).child name) mid = .ok () after) :
    Advance outdir root Nothing (names.reverse ++ root <:+ ·) fs after
      ∧ ∃ object, after.stat (outdir.descend (names ++ [short, name]))
          = .ok (name :: short :: (names.reverse ++ root), object)
        ∧ payload.type.Suits object := by
  obtain ⟨isMade, found, left, entered⟩ := version_made standing made
  obtain ⟨spelled, fits⟩ := stage_spelled isMade.sound run
  rw [child_child_descend] at spelled
  have toMid := standing.made (by simp [depth]) isMade
  -- Whoever enters the version passes names that are not too long.
  have fit : Fit (names ++ [short, name]) := by
    obtain ⟨links, atRoot⟩ := found
    rw [Path.child_descend] at entered
    have parts := toMid.standing.plain.fit_of_reach atRoot entered
    simp only [Fit, List.forall_mem_append, List.forall_mem_cons] at parts ⊢
    exact ⟨parts.1, parts.2.1, fits, by simp⟩
  have nothing := vacant_version standing depth isMade spelled fit missing
  have staged := stage_ok isMade.sound standing.sound.toWellFormed isMade.grown.toExtends entered
    isOf examined run
  have toAfter : Advance outdir root Nothing (names.reverse ++ root <:+ ·) mid after :=
    (toMid.standing.staged found (List.cons_ne_nil name (short :: names.reverse)) nothing staged).mono
      (fun _ impossible => impossible) fun _ => (List.suffix_append [name, short] _).trans
  obtain ⟨object, stands⟩ := Option.ne_none_iff_exists'.mp staged.there
  have straight : Straight after outdir root (names ++ [short, name]) :=
    ⟨spelled, fit, toMid.standing.entered toAfter.outside found⟩
  exact ⟨toMid.gaining.trans toAfter, object,
    (stat_version toAfter.standing).mpr ⟨straight, rfl, stands⟩, staged.left.suits stands⟩

/-- Packaging keeps what is to last, whether the artifact was there or is staged. -/
theorem package_advance (standing : Standing outdir root fs)
    (depth : names.length + 1 = versionDepth) {payload : Payload} (isOf : payload.IsOf fs source)
    {artifact : Artifact}
    (run : package source payload.type (outdir.descend names) fs = .ok artifact after) :
    ∃ short name object, IsPlace payload source short name
      ∧ artifact.staged = outdir.descend (names ++ [short, name])
      ∧ artifact.hash = ContentHash.ofContent payload.octets
      ∧ Advance outdir root Nothing (names.reverse ++ root <:+ ·) fs after
      ∧ after.stat artifact.staged = .ok (name :: short :: (names.reverse ++ root), object)
      ∧ (Unused fs (names.reverse ++ root) → payload.type.Suits object) := by
  obtain ⟨short, name, isPlace, path, hash, outcome⟩ := package_ok isOf run
  rw [path] at outcome
  rw [child_child_descend] at path
  rcases outcome with ⟨there, rfl⟩ | ⟨missing, entries, mid, examined, made, run⟩
  · rw [child_child_descend] at there
    obtain ⟨object, found, stands⟩ := stat_of_exists standing there
    refine ⟨short, name, object, isPlace, path, hash, .refl standing, path ▸ found, ?_⟩
    intro unused
    have nothing := unused [name, short] (by simp)
    rw [List.cons_append, List.singleton_append, stands] at nothing
    cases nothing
  · rw [child_child_descend] at missing
    obtain ⟨advance, object, found, suits⟩ :=
      stage_advance standing depth isOf missing examined made run
    exact ⟨short, name, object, isPlace, path, hash, advance, path ▸ found, fun _ => suits⟩

/-- An empty directory of a version is removed again. -/
theorem withoutEmpty_advance (standing : Standing outdir root fs)
    (found : ∃ left, fs.reach false outdir = .ok (left, root))
    (depth : names.length + 1 = versionDepth) (short : Name) :
    Advance outdir root Nothing Nothing fs (withoutEmpty ((outdir.descend names).child short) fs) := by
  unfold withoutEmpty
  cases removed : fs.removeDirectory ((outdir.descend names).child short) with
  | error fault => exact .refl standing
  | ok after =>
      obtain ⟨s, isSlot, empty, rfl⟩ := removeDirectory_ok removed
      obtain ⟨rfl, left, reached⟩ := isSlot.of_child
      obtain ⟨links, entered⟩ := found
      have same := standing.plain.reach_descend entered reached
      have location : s.location = s.name :: names.reverse ++ root := by
        rw [Slot.location, same, List.cons_append]
      rw [location] at empty ⊢
      exact standing.erased (by simpa using depth) empty

/-- A call that fails loses nothing. -/
theorem package_failed (standing : Standing outdir root fs)
    (depth : names.length + 1 = versionDepth) {e : Failure}
    (run : package source type (outdir.descend names) fs = .error e after) :
    Advance outdir root Nothing Nothing fs after := by
  rcases package_error run with ⟨-, rfl⟩ | ⟨entries, hash, text, short, name, examined, -, -, failed⟩
  · exact .refl standing
  have few : (names ++ [short]).length ≤ versionDepth := by simp [depth]
  obtain ⟨_, failing, -⟩ := Action.mapError_error_iff.mp failed
  rcases Action.bind_error_iff.mp failing with stopped | ⟨_, mid, made, staging⟩
  · rw [Path.child_descend] at stopped
    exact standing.made few (createAll_made standing.sound (Or.inr ⟨_, stopped⟩))
  · obtain ⟨last, stopped, rfl⟩ := Action.onFailure_error_iff.mp staging
    obtain ⟨isMade, found, left, entered⟩ := version_made standing made
    have toMid := standing.made few isMade
    obtain ⟨sound, agrees⟩ := stage_error isMade.sound standing.sound.toWellFormed
      isMade.grown.toExtends entered examined stopped
    have toLast := toMid.standing.agrees sound agrees
    have found' := toMid.standing.entered toLast.outside found
    exact (toMid.trans toLast).trans (withoutEmpty_advance toLast.standing found' depth short)

/-- A file is packaged whose artifact is not there yet. -/
theorem package_of_file {staging path : Path} {content : Bytes} {short : String}
    (checked : checkSource fs source .file = .ok ()) (read : fs.read source = .ok content)
    (ofHash : shortOf (ContentHash.ofContent content) = .ok short)
    (named : Artifact.nameFor short .file source = short)
    (place : (staging.childText short).childText short = path) (missing : fs.exists? path = false)
    (staged : stageIn source .file [] (staging.childText short) path fs = .ok () mid) :
    package source .file staging fs = .ok ⟨ContentHash.ofContent content, short, path⟩ mid := by
  have examined : examine fs source .file = .ok ([], ContentHash.ofContent content) := by
    have digest : digestFile fs source = .ok (ContentHash.ofContent content) := by
      rw [digestFile, read]
    simp only [examine, checked, digest, bind, Except.bind]
    rfl
  exact package_new examined ofHash named place missing staged

/-! ## Pruning -/

/-- What is in a version other than `keep`. -/
def Stale (base : Location) (keep : String) (l : Location) : Prop :=
  ∃ version : Name, version.text? ≠ some keep ∧ version :: base <:+ l

theorem removeAll_advance (standing : Standing outdir root fs)
    (depth : names.length + 1 = versionDepth) {name : Name}
    (run : fs.removeAll ((outdir.descend names).child name) = .ok after) :
    Advance outdir root (name :: (names.reverse ++ root) <:+ ·) Nothing fs after := by
  obtain ⟨place, located, rfl⟩ := removeAll_ok run
  rw [Path.child_descend] at located
  obtain ⟨-, rfl⟩ := standing.rooted.locate_descend standing.plain (by simp) located
  have same : (names ++ [name]).reverse ++ root = name :: names.reverse ++ root := by simp
  rw [same]
  have pruned : Advance outdir root (name :: names.reverse ++ root <:+ ·) Nothing fs
      (fs.eraseTree (name :: names.reverse ++ root)) := standing.pruned (by simpa using depth)
  exact pruned

theorem prune_ends {keep : String} (standing : Standing outdir root fs)
    (depth : names.length + 1 = versionDepth)
    (ends : Action.Ends (prune (outdir.descend names) keep) fs after) :
    Advance outdir root (Stale (names.reverse ++ root) keep) Nothing fs after := by
  refine prune_rel (R := fun fs after => Standing outdir root fs →
    Advance outdir root (Stale (names.reverse ++ root) keep) Nothing fs after)
    (fun fs standing => .refl standing) ?_ ?_ ends standing
  · intro fs mid after first second standing
    have toMid := first standing
    exact toMid.trans (second toMid.standing)
  · intro fs after name replaced removed standing
    exact (removeAll_advance standing depth removed).mono
      (fun l within => ⟨name, replaced.text, within⟩) fun _ isNew => isNew

end Packaging

/-! ## Stacks -/

open Packaging

/-- The names that lead from the output directory to the versions of an asset. -/
def Stack.stagingNames (stack asset : ConstructId) : List Name :=
  [App.stacksNode, stack.node, Stack.assetsNode, asset.node]

theorem Stack.depth_stagingNames (stack asset : ConstructId) :
    (stagingNames stack asset).length + 1 = versionDepth := rfl

/-- The asset of a stack was staged in the directory of its version. -/
structure Asset.StagedAs (asset : Asset) (outdir : Path) (stack : ConstructId)
    (short name : Name) : Prop where
  hash : ∃ content, asset.hash = ContentHash.ofContent content
  version : ∃ text, shortOf asset.hash = .ok text ∧ short.text? = some text
  text : name.text? = some asset.fileName
  staged : asset.staged = outdir.descend (Stack.stagingNames stack asset.id ++ [short, name])
  path : asset.path = Path.slashed
    ([Stack.assetsNode, asset.id.node, short, name].map fun name => .name name.bytes)

namespace Stack

variable {outdir source : Path} {root : Location} {start fs mid after : FileSystem}
  {stack stack' : Stack} {asset : Asset} {text : String} {type : AssetType}

theorem BelongsTo.staging (belongs : stack.BelongsTo outdir) (id : ConstructId) :
    stack.staging id = outdir.descend (stagingNames stack.name id) := by
  rw [staging_eq, belongs.directory, ← Path.descend_append]
  rfl

/-- What is in versions that assets of the stack took the place of. -/
def Superseded (root : Location) (stack : Stack) (l : Location) : Prop :=
  ∃ asset ∈ stack.assets, ∃ text, shortOf asset.hash = .ok text
    ∧ Stale ((stagingNames stack.name asset.id).reverse ++ root) text l

/-- Different assets have different places for their versions. -/
theorem stagingNames_inj {s t a b : ConstructId}
    (same : (stagingNames s a).reverse ++ root = (stagingNames t b).reverse ++ root) :
    s = t ∧ a = b := by
  simp only [stagingNames, List.reverse_cons, List.reverse_nil, List.nil_append, List.cons_append,
    List.cons.injEq] at same
  exact ⟨ConstructId.node_inj same.2.2.1, ConstructId.node_inj same.1⟩

/-- A version of an asset is stale if another version of the same asset is kept. -/
theorem stale_of_same {a b : ConstructId} {s t : ConstructId} {keep : String} {short name : Name}
    (stale : Stale ((stagingNames s a).reverse ++ root) keep
      ((stagingNames t b ++ [short, name]).reverse ++ root)) :
    s = t ∧ a = b ∧ short.text? ≠ some keep := by
  obtain ⟨version, other, within⟩ := stale
  have place : (stagingNames t b ++ [short, name]).reverse ++ root
      = name :: (short :: ((stagingNames t b).reverse ++ root)) := by simp
  rw [place] at within
  have same := Location.eq_of_suffix within (List.suffix_cons name _) (by simp [stagingNames])
  obtain ⟨rfl, base⟩ := List.cons.inj same
  obtain ⟨rfl, rfl⟩ := stagingNames_inj base
  exact ⟨rfl, rfl, other⟩

/-- The manifest is in no version. -/
theorem not_stale_manifest {s a : ConstructId} {keep : String} :
    ¬ Stale ((stagingNames s a).reverse ++ root) keep (Manifest.node :: root) := by
  rintro ⟨version, -, within⟩
  have length := within.length_le
  simp only [stagingNames, List.length_cons, List.length_append, List.length_reverse] at length
  omega

/-! ## Registering one asset -/

/-- The names of an artifact and its path, as the asset has them. -/
theorem stagedAs_of_package (belongs : stack.BelongsTo outdir) {payload : Payload}
    {artifact : Artifact} {short name : Name} (isPlace : IsPlace payload source short name)
    (ofHash : asset.hash = ContentHash.ofContent payload.octets)
    (ofName : asset.fileName
      = Artifact.nameFor (String.ofList (ContentHash.shortDigits payload.octets)) payload.type source)
    (staged : artifact.staged = outdir.descend (stagingNames stack.name asset.id ++ [short, name]))
    (same : asset.staged = artifact.staged) (keep : String)
    (path : asset.path = Path.slashed (stack.relative asset.id keep artifact)) :
    asset.StagedAs outdir stack.name short name where
  hash := ⟨payload.octets, ofHash⟩
  version := by
    refine ⟨String.ofList (ContentHash.shortDigits payload.octets), ?_, ?_⟩
    · rw [ofHash, ContentHash.shortOf_ofContent_ok]
    · rw [Name.text?, isPlace.short, Utf8.decode?_encode]
  text := by rw [Name.text?, isPlace.name, Utf8.decode?_encode, ofName]
  staged := same.trans staged
  path := by
    have below : artifact.staged = ((stack.staging asset.id).child short).child name := by
      rw [staged, belongs.staging, Path.descend_append]
      rfl
    rw [path, stack.relative_eq asset.id keep below]

/-- Only other versions of the asset are gone, and only the version of the asset is new. -/
theorem addAsset_advance (standing : Standing outdir root fs) (belongs : stack.BelongsTo outdir)
    (run : stack.addAsset text source type fs = .ok (asset, stack') after) :
    ∃ short name keep object, asset.StagedAs outdir stack.name short name
      ∧ shortOf asset.hash = .ok keep
      ∧ Advance outdir root (Stale ((stagingNames stack.name asset.id).reverse ++ root) keep)
        ((stagingNames stack.name asset.id).reverse ++ root <:+ ·) fs after
      ∧ after.stat asset.staged
        = .ok (name :: short :: ((stagingNames stack.name asset.id).reverse ++ root), object)
      ∧ (Unused fs ((stagingNames stack.name asset.id).reverse ++ root) →
        asset.type.Suits object) := by
  obtain ⟨artifact, keep, mid, -, fresh, packaged, ofHash, pruned, same, rfl⟩ := addAsset_ok run
  rw [belongs.packager, belongs.staging] at packaged pruned
  obtain ⟨payload, isOf, rfl⟩ := package_payload packaged
  obtain ⟨short, name, object, isPlace, staged, hash, toMid, there, suits⟩ :=
    package_advance standing (depth_stagingNames stack.name asset.id) isOf packaged
  have toAfter := prune_ends toMid.standing (depth_stagingNames stack.name asset.id) pruned
  have named : asset.StagedAs outdir stack.name short name :=
    stagedAs_of_package belongs isPlace (by rw [same]; exact hash)
      (by rw [same]; exact package_fileName isOf packaged) staged (by rw [same]) keep (by rw [same])
  refine ⟨short, name, keep, object, named, ofHash, toMid.losing.trans toAfter.gaining, ?_, ?_⟩
  · -- The version that is kept is this one.
    rw [staged] at there
    rw [named.staged]
    refine toAfter.stat toMid.standing (by simp [stagingNames, versionDepth]) ?_ there
    intro stale
    obtain ⟨text, known, isText⟩ := named.version
    rw [known] at ofHash
    exact (stale_of_same stale).2.2 (isText.trans (congrArg some (Except.ok.inj ofHash)))
  · rw [same]
    exact suits

/-- An asset that is not registered leaves nothing in its versions. -/
theorem addAsset_failed (standing : Standing outdir root fs) (belongs : stack.BelongsTo outdir)
    {e : Failure} (run : stack.addAsset text source type fs = .error e after) :
    Advance outdir root Nothing Nothing fs after := by
  rcases addAsset_error run with ⟨-, rfl⟩ | ⟨id, -, ⟨-, -, rfl⟩ | failed | ⟨artifact, packaged, broken⟩⟩
  · exact .refl standing
  · exact .refl standing
  · rw [belongs.packager, belongs.staging] at failed
    exact package_failed standing (depth_stagingNames stack.name id) failed
  · -- The hash of an artifact has a short form.
    rw [belongs.packager] at packaged
    obtain ⟨short, known⟩ := shortOf_ascii (Packager.standard_ascii _ _ _ _ _ _ packaged)
    rw [known] at broken
    cases broken

/-- A file is registered whose artifact is not there yet. -/
theorem addAsset_file {id : ConstructId} {path : Path} {content : Bytes} {short : String} {count : Nat}
    (standard : stack.packager = .standard) (fresh : stack.asset? id.text = none)
    (checked : checkSource fs source .file = .ok ()) (read : fs.read source = .ok content)
    (ofHash : shortOf (ContentHash.ofContent content) = .ok short)
    (named : Artifact.nameFor short .file source = short)
    (place : ((stack.staging id).childText short).childText short = path)
    (missing : fs.exists? path = false)
    (staged : stageIn source .file [] ((stack.staging id).childText short) path fs = .ok () mid)
    (pruned : prune (stack.staging id) short mid = .ok count after)
    (ofAsset : asset = ⟨id, .file, source, ContentHash.ofContent content, short,
      Path.slashed (stack.relative id short ⟨ContentHash.ofContent content, short, path⟩), path⟩) :
    stack.addAsset id.text source .file fs
      = .ok (asset, { stack with assets := stack.assets ++ [asset] }) after := by
  have packaged := package_of_file checked read ofHash named place missing staged
  have free : ∀ other ∈ stack.assets, other.id ≠ id := fun other member same =>
    List.find?_eq_none.mp fresh other member (by simp [same])
  have own : stack.packager.package = package ∧ stack.packager.prune = prune := by
    rw [standard]
    exact ⟨rfl, rfl⟩
  rw [← own.1] at packaged
  rw [← own.2] at pruned
  exact addAsset_of_package free packaged ofHash (Or.inl ⟨count, pruned⟩) ofAsset

/-! ## What has been registered -/

/-- The assets of the stack were registered one after another. -/
structure Built (outdir : Path) (root : Location) (start : FileSystem) (stack : Stack)
    (now : FileSystem) : Prop where
  belongs : stack.BelongsTo outdir
  advance : Advance outdir root (stack.Superseded root) Anything start now
  staged : ∀ asset ∈ stack.assets, ∃ short name, asset.StagedAs outdir stack.name short name
    ∧ ∃ place, now.stat asset.staged = .ok place

theorem Built.begin (standing : Standing outdir root fs) (belongs : stack.BelongsTo outdir)
    (none : stack.assets = []) : Built outdir root fs stack fs where
  belongs := belongs
  advance := .refl standing
  staged := by simp [none]

/-- What was registered is there after steps that lose none of it. -/
theorem Built.still_there {gone new : Location → Prop} (built : Built outdir root start stack mid)
    (advance : Advance outdir root gone new mid after) {asset : Asset} {short name : Name}
    (named : asset.StagedAs outdir stack.name short name)
    (stays : ¬ gone ((stagingNames stack.name asset.id ++ [short, name]).reverse ++ root))
    (there : ∃ place, mid.stat asset.staged = .ok place) :
    ∃ place, after.stat asset.staged = .ok place := by
  obtain ⟨place, ok⟩ := there
  rw [named.staged] at ok ⊢
  exact ⟨place, advance.stat built.advance.standing (by simp [stagingNames, versionDepth]) stays ok⟩

theorem Built.step (built : Built outdir root start stack mid)
    (advance : Advance outdir root Nothing Nothing mid after) :
    Built outdir root start stack after where
  belongs := built.belongs
  advance := built.advance.trans advance.losing.gaining
  staged := by
    intro asset member
    obtain ⟨short, name, named, there⟩ := built.staged asset member
    exact ⟨short, name, named, built.still_there advance named id there⟩

theorem Built.add (built : Built outdir root start stack fs)
    (run : stack.addAsset text source type fs = .ok (asset, stack') after) :
    Built outdir root start stack' after := by
  obtain ⟨short, name, keep, object, named, ofHash, advance, there, -⟩ :=
    addAsset_advance built.advance.standing built.belongs run
  obtain ⟨_, _, _, -, fresh, -, -, -, -, rfl⟩ := addAsset_ok run
  refine ⟨⟨built.belongs.directory, built.belongs.packager⟩, ?_, ?_⟩
  · -- Versions of this asset may be gone now, too.
    refine (built.advance.mono ?_ fun _ isNew => isNew).trans (advance.mono ?_ fun _ _ => trivial)
    · rintro l ⟨other, member, text, known, stale⟩
      exact ⟨other, List.mem_append_left _ member, text, known, stale⟩
    · intro l stale
      exact ⟨asset, by simp, keep, ofHash, stale⟩
  · intro other member
    rcases List.mem_append.mp member with member | member
    · obtain ⟨short', name', named', there'⟩ := built.staged other member
      refine ⟨short', name', named', built.still_there advance named' ?_ there'⟩
      intro stale
      exact fresh other member (stale_of_same stale).2.1.symm
    · obtain rfl := List.mem_singleton.mp member
      exact ⟨short, name, named, _, there⟩

/-- A registration that fails loses nothing. -/
theorem Built.failed (built : Built outdir root start stack fs) {e : Failure}
    (run : stack.addAsset text source type fs = .error e after) :
    Built outdir root start stack after :=
  built.step (addAsset_failed built.advance.standing built.belongs run)

end Stack
end StackSynth
