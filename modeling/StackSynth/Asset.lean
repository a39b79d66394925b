import StackSynth.Artifact
import StackSynth.ConstructId

/-!
# Asset — a packaged source in a stack

An asset has the hash and the name of its artifact, and the path of the artifact from the
directory of the stack.  Stack files refer to these by name.
-/

namespace StackSynth

structure Asset where
  id : ConstructId
  type : AssetType
  /-- The source as it was given. -/
  source : Path
  hash : ContentHash
  fileName : String
  /-- The path of the artifact from the directory of the stack, with slashes. -/
  path : String
  staged : Path

namespace Asset

/-- What can be referred to, under each of its names. -/
def attribute? (asset : Asset) (name : String) : Option String :=
  if name = "file_name" || name = "fileName" then some asset.fileName
  else if name = "path" then some asset.path
  else if name = "hash" || name = "asset_hash" || name = "assetHash" then some asset.hash.text
  else none

end Asset
end StackSynth
