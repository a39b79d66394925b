import StackSynth.FileSystem

/-!
# Disk — a file system that lasts

A run works on a value of type `FileSystem`.  This file reads such a value from the disk and
carries out what a run has changed.

* `Disk.read` — what stands at and below some places, and whatever links there lead to;
* `Changes.between` — what is to be removed and what is to be put;
* `Disk.carryOut` — removes and puts.

The disk does not tell permission bits: every file that is read counts as one that is not
executable.
-/

namespace StackSynth

/-! ## Changes -/

/-- What one file system has to undergo to become another one. -/
structure Changes where
  /-- What is to be removed, each object before the directory that holds it. -/
  removed : List (Location × Object)
  /-- What is to be put, each directory before the objects in it. -/
  put : List (Location × Object)

/-- Deeper locations come later. -/
def upwards (a b : Location × Object) : Bool :=
  a.1.length ≤ b.1.length

/-- An object is still there, though a file may have another content. -/
def remains : Object → Option Object → Bool
  | .file _ _, some (.file _ _) => true
  | object, found => found == some object

def Changes.between (before after : FileSystem) : Changes where
  removed :=
    ((before.objects.filter fun entry =>
      !remains entry.2 (after.get? entry.1)).mergeSort upwards).reverse
  put :=
    (after.objects.filter fun entry => before.get? entry.1 ≠ some entry.2).mergeSort upwards

namespace Disk

/-! ## Places -/

/-- The location of an absolute path without dot names. -/
def location (place : String) : Location :=
  ((Bytes.splitOn slash (Utf8.encode place)).filterMap Name.ofBytes?).reverse

/-- The absolute path of a location. -/
def place (l : Location) : String :=
  "/" ++ Text.joinWith "/" (l.reverse.map Name.display)

/-- The directories above a location. -/
def above : Location → List Location
  | [] => []
  | _ :: l => l :: above l

/-! ## Reading -/

/-- The permission bits of a file that is read. -/
def usualMode : Nat := 0o644

/-- The objects found so far. -/
abbrev Found := List (Location × Object)

def isKnown (found : Found) (l : Location) : Bool :=
  found.any fun entry => entry.1 == l

/-- Where a link leads at last, as an absolute path. -/
def target (path : String) : IO String := do
  return (← IO.FS.realPath path).toString

def objectAt (path : String) (type : IO.FS.FileType) : IO Object := do
  match type with
  | .dir => return .directory
  | .symlink => return .link (Path.ofString (← target path))
  | .file => return .file (← IO.FS.readBinFile path).toList usualMode
  | .other => return .pipe

/-- Paths have fewer names than this. -/
def depthLimit : Nat := 2048

/-- Adds what stands at a place and below it. -/
def scan : (depth : Nat) → (path : String) → Found → IO Found
  | 0, _, found => return found
  | depth + 1, path, found => do
      let real ← IO.FS.realPath path
      let here := location real.toString
      if isKnown found here then return found
      match (← real.metadata).type with
      | .dir =>
          let mut found := (here, .directory) :: found
          for entry in ← real.readDir do
            let type := (← entry.path.symlinkMetadata).type
            if type == .dir then
              found ← scan depth entry.path.toString found
            else
              let l := location entry.path.toString
              if !isKnown found l then
                found := (l, ← objectAt entry.path.toString type) :: found
          return found
      | type => return (here, ← objectAt real.toString type) :: found

/-- Adds what stands at places that exist. -/
def scanAll (places : List String) (found : Found) : IO Found :=
  places.foldlM
    (fun found path => do
      try scan depthLimit path found catch _ => return found)
    found

/-- The places that links lead to. -/
def targets (found : Found) : List String :=
  found.filterMap fun entry =>
    match entry.2 with
    | .link target => some target.display
    | _ => none

/-- Adds what links lead to, and the links there, so many times. -/
def follow : (times : Nat) → Found → IO Found
  | 0, found => return found
  | times + 1, found => do
      let more ← scanAll (targets found) found
      if more.length = found.length then return found else follow times more

/-- How often links to links are followed. -/
def followLimit : Nat := 40

/-- The directories above what was found. -/
def withAbove (found : Found) : Found :=
  (found.flatMap fun entry => above entry.1).foldl
    (fun found l => if l = [] || isKnown found l then found else (l, .directory) :: found) found

/-- What stands at and below some places. -/
def read (places : List String) : IO FileSystem := do
  let here ← target "."
  let found ← follow followLimit (← scanAll (here :: places) [])
  let current := location here
  return ⟨(withAbove ((current, .directory) :: found)).filter fun entry => entry.1 ≠ [], current⟩

/-! ## Carrying out -/

def remove (entry : Location × Object) : IO Unit :=
  match entry.2 with
  | .directory => IO.FS.removeDir (place entry.1)
  | _ => IO.FS.removeFile (place entry.1)

/-- What three permission bits allow. -/
def right (bits : Nat) : IO.AccessRight :=
  ⟨bits / 4 % 2 == 1, bits / 2 % 2 == 1, bits % 2 == 1⟩

/-- Puts an object; the content of a file shows up all at once. -/
def put (entry : Location × Object) : IO Unit :=
  match entry.2 with
  | .directory => IO.FS.createDirAll (place entry.1)
  | .file content mode => do
      let path := place entry.1
      let unfinished := path ++ ".unfinished"
      IO.FS.writeBinFile unfinished ⟨content.toArray⟩
      IO.setAccessRights unfinished ⟨right (mode / 64), right (mode / 8), right mode⟩
      IO.FS.rename unfinished path
  | .link _ | .pipe => return ()

def carryOut (changes : Changes) : IO Unit := do
  changes.removed.forM remove
  changes.put.forM put

end Disk
end StackSynth
