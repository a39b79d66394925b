import StackSynth.AssetType
import StackSynth.Failure

/-!
# Artifact — what packaging a source yields

An artifact is known by the hash of its content and stands under a name made from the short form
of the hash: an archive is `<short>.tar.gz`, a directory `<short>`, and a file keeps its
extension.
-/

namespace StackSynth

structure Artifact where
  hash : ContentHash
  fileName : String
  staged : Path

/-- The short form of a hash. -/
def shortOf (hash : ContentHash) : Except Failure String :=
  match hash.short? with
  | some short => .ok short
  | none => .error (.brokenHash hash)

namespace Artifact

/-- What the name of a file keeps: its extension, and `tar` in front of it. -/
def suffix? (source : Path) : Option String := do
  let extension ← Utf8.decode? (← source.extension?)
  if extension.isEmpty then none
  let inner := do Utf8.decode? (← Path.extension? ⟨← source.stem?⟩)
  return if inner = some "tar" then "tar." ++ extension else extension

/-- The name of an artifact whose hash has the short form `short`. -/
def nameFor (short : String) (type : AssetType) (source : Path) : String :=
  match type with
  | .archive => short ++ ".tar.gz"
  | .directory => short
  | .file =>
      match suffix? source with
      | some suffix => short ++ "." ++ suffix
      | none => short

end Artifact
end StackSynth
