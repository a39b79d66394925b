import StackSynth.Artifact
import StackSynth.FileSystem.Change
import StackSynth.Gzip
import StackSynth.Listing
import StackSynth.Tar

/-!
# Packaging — from a source to an artifact in a staging directory

An artifact is staged under `<staging>/<short>/<name>`, where both names come from the hash of
the content.  What is already there is left as it is, since its path tells its content.

* `Packaging.hash` — the content hash alone;
* `Packaging.stage` — a file is copied, a directory is copied entry by entry, and an archive is
  written, each under a temporary name first;
* `Packaging.package` — check, hash and stage;
* `Packaging.prune` — removes the versions that another one replaced.

`Packager` itself is what a stack needs of a packager, and `Packager.standard` the one here.
-/

namespace StackSynth

structure Packager where
  package : (source : Path) → (type : AssetType) → (staging : Path) → Action Failure Artifact
  /-- Removes the versions in a staging directory other than one, and counts them. -/
  prune : (staging : Path) → (keep : String) → Action Failure Nat := fun _ _ => pure 0

namespace Packaging

/-- A fault while `path` is packaged. -/
def fault (path : Path) (reason : Fault) : Failure :=
  .packaging path (.fault reason)

/-! ## Hashing -/

/-- A source is there, and is a directory if and only if its type wants one. -/
def checkSource (fs : FileSystem) (source : Path) (type : AssetType) : Except Failure Unit :=
  match fs.stat source with
  | .error .notFound => .error (.pathNotFound source)
  | .error reason => .error (fault source reason)
  | .ok (_, object) =>
      match type.wantsDirectory, object with
      | true, .directory => .ok ()
      | true, _ => .error (.packaging source (.notDirectory type.text))
      | false, .directory => .error (.packaging source .notFile)
      | false, _ => .ok ()

/-- The entries of a source and its hash; a file has no entries. -/
def examine (fs : FileSystem) (source : Path) (type : AssetType) :
    Except Failure (List Entry × ContentHash) := do
  checkSource fs source type
  match type with
  | .file => return ([], ← digestFile fs source)
  | .directory | .archive =>
      let entries ← Listing.collect fs source
      return (entries, ← Listing.digest fs entries)

/-- The hash alone, computed apart from `examine`. -/
def hash (fs : FileSystem) (source : Path) (type : AssetType) : Except Failure ContentHash := do
  checkSource fs source type
  match type with
  | .file => digestFile fs source
  | .directory | .archive => Listing.digest fs (← Listing.collect fs source)

/-- Both computations of a hash agree, also on what they fail with. -/
theorem hash_eq (fs : FileSystem) (source : Path) (type : AssetType) :
    hash fs source type = (examine fs source type).map Prod.snd := by
  unfold hash examine
  cases checkSource fs source type with
  | error e => rfl
  | ok _ =>
      cases type with
      | file =>
          show digestFile fs source = _
          cases digestFile fs source <;> simp [bind, Except.bind, Except.map, pure, Except.pure]
      | directory | archive =>
          cases listed : Listing.collect fs source with
          | error e => simp [bind, Except.bind, Except.map]
          | ok entries =>
              cases digest : Listing.digest fs entries <;> simp [digest, bind, Except.bind,
                Except.map, pure, Except.pure]

theorem hash_eq_ok_iff {fs : FileSystem} {source : Path} {type : AssetType} {hash : ContentHash} :
    Packaging.hash fs source type = .ok hash
      ↔ ∃ entries, examine fs source type = .ok (entries, hash) := by
  rw [hash_eq]
  cases examine fs source type <;> simp [Except.map, Prod.ext_iff]

/-! ## Staging -/

/-- Copies entries below `target`. -/
def copyEntries (target : Path) : List Entry → Action Fault Unit
  | [] => pure ()
  | entry :: rest => do
      let path := target.childText entry.name
      match entry.kind with
      | .directory => FileSystem.createAll path
      | .file _ _ => FileSystem.copyAtomically entry.path path
      copyEntries target rest

/-- The file of an archive with some entries. -/
def archive (fs : FileSystem) (entries : List Entry) : Except Fault (Bytes × Nat) := do
  return (Gzip.wrap (Tar.write (← Listing.members fs entries)), 0o600)

/-- Makes an artifact at `staged`, which stands in `directory`. -/
def stage (source : Path) (type : AssetType) (entries : List Entry) (directory staged : Path) :
    Action Fault Unit :=
  match type with
  | .file => FileSystem.copyAtomically source staged
  | .archive => FileSystem.placeFile directory staged fun fs => archive fs entries
  | .directory =>
      FileSystem.withTemporaryDirectory directory fun location path => do
        copyEntries path entries
        Action.step fun fs => fs.rename location staged

/-- The file system without an empty directory, or as it is. -/
def withoutEmpty (directory : Path) (fs : FileSystem) : FileSystem :=
  match fs.removeDirectory directory with
  | .ok after => after
  | .error _ => fs

/-- Stages an artifact in a directory of its own; one that stays empty is removed again. -/
def stageIn (source : Path) (type : AssetType) (entries : List Entry) (directory staged : Path) :
    Action Failure Unit :=
  Action.mapError (fault source) do
    FileSystem.createAll directory
    Action.onFailure (withoutEmpty directory) (stage source type entries directory staged)

def package (source : Path) (type : AssetType) (staging : Path) : Action Failure Artifact := do
  let (entries, hash) ← Action.query fun fs => examine fs source type
  let short ← Action.ofExcept (shortOf hash)
  let fileName := Artifact.nameFor short type source
  let directory := staging.childText short
  let staged := directory.childText fileName
  let there ← Action.query fun fs => .ok (fs.exists? staged)
  if !there then
    stageIn source type entries directory staged
  return ⟨hash, fileName, staged⟩

/-! ## Pruning -/

/-- A name that a short form of a digest can have. -/
def isVersion (name : String) : Bool :=
  name.length == ContentHash.shortLength
    && name.toList.all fun c => ('0' ≤ c && c ≤ '9') || ('a' ≤ c && c ≤ 'f')

/-- A child of `staging` that is a version other than `keep`. -/
def isStale (fs : FileSystem) (staging : Path) (keep : String) (name : Name) : Bool :=
  match name.text? with
  | none => false
  | some text => text != keep && isVersion text && fs.isDirectory (staging.child name)

/-- Removes the stale ones among some children and counts them. -/
def pruneAmong (staging : Path) (keep : String) : List Name → Action Failure Nat
  | [] => pure 0
  | name :: rest => do
      if ← Action.query fun fs => .ok (isStale fs staging keep name) then
        Action.mapError (fault staging) (Action.step fun fs => fs.removeAll (staging.child name))
        return (← pruneAmong staging keep rest) + 1
      else
        pruneAmong staging keep rest

def prune (staging : Path) (keep : String) : Action Failure Nat := fun fs =>
  match fs.names staging with
  | .error .notFound => .ok 0 fs
  | .error reason => .error (fault staging reason) fs
  | .ok names => pruneAmong staging keep names fs

end Packaging

def Packager.standard : Packager where
  package := Packaging.package
  prune := Packaging.prune

end StackSynth
