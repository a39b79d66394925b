import StackSynth.Digest
import StackSynth.Failure

/-!
# Listing — the entries of a directory that is to be packaged

A listing names everything below a directory, except what its ignore file leaves out, in the
order of the names.  Symbolic links are followed: an entry is what a path leads to.  A directory
that is left out is not entered, and neither pipes nor other special objects are listed.

* `Listing.collect` — the listing of a directory; it ends because a path grows with every name
  and a path that is found is shorter than `pathLimit`;
* `Entry.member` — an entry with the content that it has now;
* `Listing.digest` — the content hash of a listing, if no file changed its length since.
-/

namespace StackSynth

inductive EntryKind where
  | directory
  | file (executable : Bool) (length : Nat)
  deriving DecidableEq

/-- Something below a packaged directory. -/
structure Entry where
  /-- The names from the packaged directory, with slashes between them. -/
  name : String
  path : Path
  kind : EntryKind
  deriving DecidableEq

namespace Listing

/-! ## Walking -/

/-- A directory that the walk is inside of. -/
structure Level where
  location : Location
  path : Path

/-- Names with slashes between them. -/
def relative (names : List Name) : Path :=
  ⟨Bytes.joinWith slash (names.map Name.bytes)⟩

/-- The same as text. -/
def shown (names : List Name) : String :=
  Text.joinWith "/" (names.map Name.display)

def walkFailure (path : Path) (fault : Fault) : Failure :=
  .packaging path (.walking path fault)

/-- Whether a child is a directory, links followed.  A link has to lead somewhere, and not to a
directory that the walk is inside of. -/
def leadsToDirectory (fs : FileSystem) (inside : List Level) (child : Location) (path : Path) :
    Except Failure Bool :=
  match fs.get? child with
  | some .directory => .ok true
  | some (.link _) =>
      match fs.stat path with
      | .error fault => .error (walkFailure path fault)
      | .ok (target, .directory) =>
          match inside.find? fun level => level.location == target with
          | some level => .error (.packaging path (.loop path level.path))
          | none => .ok true
      | .ok _ => .ok false
  | _ => .ok false

/-- The entries at and below some children of the directory `here`, whose own names are `above`
and which stands inside of `outside`. -/
def walk (fs : FileSystem) (rules : IgnoreRules) (here : Level) (outside : List Level)
    (above : List Name) : List Name → Except Failure (List Entry)
  | [] => .ok []
  | name :: rest => do
      let path := here.path.child name
      let names := above ++ [name]
      let ahead ← leadsToDirectory fs (here :: outside) (name :: here.location) path
      if rules.ignores (relative names) ahead then walk fs rules here outside above rest
      else
        match _found : fs.stat path with
        | .error fault => .error (walkFailure path fault)
        | .ok (location, .directory) => do
            let inner ← walk fs rules ⟨location, path⟩ (here :: outside) names
              (fs.children location)
            let others ← walk fs rules here outside above rest
            return ⟨shown names, path, .directory⟩ :: (inner ++ others)
        | .ok (_, .file content mode) => do
            let others ← walk fs rules here outside above rest
            return ⟨shown names, path, .file (executable mode) content.length⟩ :: others
        | .ok _ => walk fs rules here outside above rest
termination_by names => (FileSystem.pathLimit - here.path.bytes.length, names.length)
decreasing_by
  · exact Prod.Lex.right _ (by simp)
  · have longer := Path.length_lt_child here.path name
    have limited : (here.path.child name).bytes.length < FileSystem.pathLimit :=
      FileSystem.length_lt_of_stat _found
    exact Prod.Lex.left _ _ (by omega)
  · exact Prod.Lex.right _ (by simp)
  · exact Prod.Lex.right _ (by simp)
  · exact Prod.Lex.right _ (by simp)

/-- Whether one entry comes no later than another. -/
def inOrder (a b : Entry) : Bool :=
  decide (a.name ≤ b.name)

/-- The entries below `root`, in the order of their names. -/
def collect (fs : FileSystem) (root : Path) : Except Failure (List Entry) := do
  let rules ← (IgnoreRules.load fs root).mapError Failure.ignoreFile
  match fs.stat root with
  | .error fault => throw (walkFailure root fault)
  | .ok (location, .directory) =>
      return (← walk fs rules ⟨location, root⟩ [] [] (fs.children location)).mergeSort inOrder
  | .ok _ => return []

end Listing

/-! ## Content -/

/-- The entry with its present content, whatever its length. -/
def Entry.member (fs : FileSystem) (entry : Entry) : Except Fault Member :=
  match entry.kind with
  | .directory => .ok (.directory entry.name)
  | .file executable _ => do return .file entry.name executable (← fs.read entry.path)

/-- The entry with its present content, which is as long as it was. -/
def Entry.unchanged (fs : FileSystem) (entry : Entry) : Except Failure Member :=
  match entry.kind with
  | .directory => .ok (.directory entry.name)
  | .file executable length =>
      match fs.read entry.path with
      | .error fault => .error (.packaging entry.path (.fault fault))
      | .ok content =>
          if content.length = length then .ok (.file entry.name executable content)
          else .error (.packaging entry.path .changed)

namespace Listing

def members (fs : FileSystem) (entries : List Entry) : Except Fault (List Member) :=
  entries.mapM (Entry.member fs)

def digest (fs : FileSystem) (entries : List Entry) : Except Failure ContentHash := do
  return Member.digest (← entries.mapM (Entry.unchanged fs))

end Listing

/-- The content hash of a single file. -/
def digestFile (fs : FileSystem) (path : Path) : Except Failure ContentHash :=
  match fs.read path with
  | .error fault => .error (.packaging path (.fault fault))
  | .ok content => .ok (ContentHash.ofContent content)

end StackSynth
