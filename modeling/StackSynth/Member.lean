import StackSynth.Bytes

/-!
# Member — what a packaged directory holds

A packaged directory is a list of members.  Each is named by its path from the directory, with
slashes between the names, and a file comes with its content and with whether it may be executed.
Times, owners and the rest of the permissions are no part of it, so that equal lists of members
are equal packages.
-/

namespace StackSynth

inductive Member where
  | directory (name : String)
  | file (name : String) (executable : Bool) (content : Bytes)
  deriving DecidableEq

def Member.name : Member → String
  | .directory name => name
  | .file name _ _ => name

end StackSynth
