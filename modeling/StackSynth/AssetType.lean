import StackSynth.Text

/-!
# AssetType — what becomes of a source

A file is copied, a directory is copied with all that is in it, and an archive is one file made
of a directory.  `AssetType.ofText?` reads the names and the other names of the types in any
case.
-/

namespace StackSynth

inductive AssetType where
  | file
  | directory
  | archive
  deriving DecidableEq, Inhabited

namespace AssetType

def text : AssetType → String
  | .file => "file"
  | .directory => "directory"
  | .archive => "archive"

/-- The source has to be a directory. -/
def wantsDirectory : AssetType → Bool
  | .file => false
  | .directory => true
  | .archive => true

/-- The type of an asset that states none. -/
def standard : AssetType := .archive

/-- The type with exactly this name. -/
def ofName? (name : String) : Option AssetType :=
  if name = "file" then some .file
  else if name = "directory" then some .directory
  else if name = "archive" then some .archive
  else none

def names : List String := ["file", "directory", "archive"]

/-- The type with this name or this other name, in any case. -/
def ofText? (given : String) : Option AssetType :=
  let name := Text.lowerAscii given
  if name = "dir" then some .directory
  else if name = "zip" || name = "tar" then some .archive
  else ofName? name

/-- The message for a name that no type has. -/
def unknownMessage (given : String) : String :=
  "unknown asset type '" ++ Text.lowerAscii given ++ "' (expected file, directory or archive)"

end AssetType
end StackSynth
