import StackSynth.FileSystem.Resolve

/-!
# Query — looking without touching

Every query is a function of the file system, so that none of them can change it.

* `FileSystem.stat` — the object a path leads to, links followed; `lstat` does not follow a
  link at the end;
* `FileSystem.read`, `FileSystem.readText` — the content of a regular file;
* `FileSystem.names` — the names in a directory;
* `FileSystem.exists`, `isDirectory`, `isFile` — queries that cannot fail.
-/

namespace StackSynth

/-- The owner may read. -/
def readable (mode : Nat) : Bool :=
  mode / 0o400 % 2 == 1

/-- Anyone may execute. -/
def executable (mode : Nat) : Bool :=
  mode % 2 == 1 || mode / 0o10 % 2 == 1 || mode / 0o100 % 2 == 1

namespace FileSystem

def stat (fs : FileSystem) (p : Path) : Except Fault (Location × Object) := do
  let place ← fs.locate true p
  match place.object with
  | some object => return (place.location, object)
  | none => throw .notFound

/-- What is found has a path of limited length. -/
theorem length_lt_of_stat {fs : FileSystem} {p : Path} {found : Location × Object}
    (ok : fs.stat p = .ok found) : p.bytes.length < pathLimit := by
  rcases Nat.lt_or_ge p.bytes.length pathLimit with short | long
  · exact short
  · exfalso
    have wrong : ∃ fault, misspelled? p = some fault := by
      unfold misspelled?
      split
      · exact ⟨_, rfl⟩
      · split
        · exact ⟨_, rfl⟩
        · exact ⟨_, rfl⟩
    obtain ⟨fault, wrong⟩ := wrong
    simp [stat, locate, wrong, bind, Except.bind] at ok

def lstat (fs : FileSystem) (p : Path) : Except Fault (Location × Object) := do
  let place ← fs.locate false p
  match place.object with
  | some object => return (place.location, object)
  | none => throw .notFound

/-- Content and permission bits of the regular file that a path leads to. -/
def readFile (fs : FileSystem) (p : Path) : Except Fault (Bytes × Nat) := do
  match (← fs.stat p).2 with
  | .file content mode =>
      if readable mode then return (content, mode) else throw .permissionDenied
  | .directory => throw .isDirectory
  | _ => return ([], 0o644)

def read (fs : FileSystem) (p : Path) : Except Fault Bytes := do
  return (← fs.readFile p).1

def readText (fs : FileSystem) (p : Path) : Except Fault String := do
  match Utf8.decode? (← fs.read p) with
  | some text => return text
  | none => throw .notText

def names (fs : FileSystem) (p : Path) : Except Fault (List Name) := do
  match ← fs.stat p with
  | (location, .directory) => return fs.children location
  | _ => throw .notDirectory

def exists? (fs : FileSystem) (p : Path) : Bool :=
  match fs.stat p with
  | .ok _ => true
  | .error _ => false

def isDirectory (fs : FileSystem) (p : Path) : Bool :=
  match fs.stat p with
  | .ok (_, .directory) => true
  | _ => false

def isFile (fs : FileSystem) (p : Path) : Bool :=
  match fs.stat p with
  | .ok (_, .file _ _) => true
  | _ => false

end FileSystem
end StackSynth
