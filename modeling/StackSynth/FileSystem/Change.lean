import StackSynth.FileSystem.Query

/-!
# Change — steps that alter a file system

An action takes a file system and leaves another one, whether it succeeds or fails: a failing
action may have done part of its work.  The single steps (`mkdir`, `rename`, `removeDirectory`
and those on locations) do all of their work or none; the composed ones are

* `createAll` — a directory with all directories above it;
* `writeAtomically`, `copyAtomically` — a file that is complete before it gets its name: the
  content goes to a temporary file in the same directory, which is then renamed, or removed if
  anything fails;
* `withTemporaryDirectory` — a directory that is removed again unless it was renamed.
-/

namespace StackSynth

/-- A computation on a file system that may fail with `ε`. -/
abbrev Action (ε α : Type) := EStateM ε FileSystem α

namespace Action

variable {ε φ α : Type}

/-- A query, which leaves the file system as it is. -/
def query (f : FileSystem → Except ε α) : Action ε α := fun fs =>
  match f fs with
  | .ok value => .ok value fs
  | .error e => .error e fs

/-- A result that needs no file system. -/
def ofExcept (result : Except ε α) : Action ε α :=
  query fun _ => result

/-- A step that does all of its work or none. -/
def step (f : FileSystem → Except ε FileSystem) : Action ε Unit := fun fs =>
  match f fs with
  | .ok after => .ok () after
  | .error e => .error e fs

/-- The same work, with its failures told in other words. -/
def mapError (f : ε → φ) (action : Action ε α) : Action φ α := fun fs =>
  match action fs with
  | .ok value after => .ok value after
  | .error e after => .error (f e) after

/-- Does the work, and takes no notice if it fails. -/
def attempt (action : Action ε α) : Action ε Unit := fun fs =>
  match action fs with
  | .ok _ after => .ok () after
  | .error _ after => .ok () after

/-- Does `cleanup` if `action` fails, and fails with the failure of `action`. -/
def onFailure (cleanup : FileSystem → FileSystem) (action : Action ε α) : Action ε α := fun fs =>
  match action fs with
  | .ok value after => .ok value after
  | .error e after => .error e (cleanup after)

end Action

namespace FileSystem

/-! ## Single steps -/

def mkdir (fs : FileSystem) (p : Path) : Except Fault FileSystem := do
  let slot ← fs.slot .alreadyThere p
  match fs.get? slot.location with
  | none => return fs.set slot.location .directory
  | some _ => throw .alreadyThere

/-- Puts a file that is no directory in the place of `target`, whatever stood there except a
directory. -/
def replaceFile (fs : FileSystem) (source : Location) (object : Object) (target : Location) :
    Except Fault FileSystem :=
  match fs.get? target with
  | some .directory => .error .isDirectory
  | _ => .ok ((fs.erase source).set target object)

/-- Puts a directory in the place of `target`, which may be an empty directory. -/
def replaceDirectory (fs : FileSystem) (source target : Location) : Except Fault FileSystem :=
  if source = target then .ok fs
  else if Location.within source target then .error .invalidArgument
  else
    match fs.get? target with
    | none => .ok (fs.moveTree source target)
    | some .directory =>
        if (fs.children target).isEmpty then .ok ((fs.erase target).moveTree source target)
        else .error .notEmpty
    | some _ => .error .notDirectory

/-- Gives the object at `source` the name `p`; a zero octet in it is an invalid argument. -/
def rename (fs : FileSystem) (source : Location) (p : Path) : Except Fault FileSystem := do
  if p.bytes.contains 0 then throw .invalidArgument
  let slot ← fs.slot .busy p
  match fs.get? source with
  | none => throw .notFound
  | some .directory => fs.replaceDirectory source slot.location
  | some object =>
      if p.wantsDirectory then throw .notDirectory
      fs.replaceFile source object slot.location

/-- Removes an empty directory. -/
def removeDirectory (fs : FileSystem) (p : Path) : Except Fault FileSystem := do
  let slot ← fs.slot .invalidArgument p
  match fs.get? slot.location with
  | none => throw .notFound
  | some .directory =>
      if (fs.children slot.location).isEmpty then return fs.erase slot.location
      else throw .notEmpty
  | some _ => throw .notDirectory

/-- Removes whatever `p` names, with all below it; a link goes without its target. -/
def removeAll (fs : FileSystem) (p : Path) : Except Fault FileSystem := do
  let (location, _) ← fs.lstat p
  if location.isEmpty then throw .busy
  return fs.eraseTree location

/-! ## Temporary names -/

/-- A temporary name that is not among those taken. -/
def freshName (taken : List Name) : Name :=
  (((List.range (taken.length + 1)).map Name.temporary).find? fun name => !taken.contains name).getD
    (Name.temporary taken.length)

/-- Where a temporary object in the directory `p` goes, and its path. -/
def temporary (fs : FileSystem) (p : Path) : Except Fault (Location × Path) := do
  let (location, object) ← fs.stat p
  match object with
  | .directory =>
      let name := freshName (fs.children location)
      let path := p.child name
      if pathLimit ≤ path.bytes.length then throw .nameTooLong
      return (name :: location, path)
  | _ => throw .notDirectory

/-! ## Composed actions -/

/-- Creates the directory `p`; one that is already there is as good. -/
def mkdirOrAccept (p : Path) : Action Fault Unit := fun fs =>
  match fs.mkdir p with
  | .ok after => .ok () after
  | .error fault => if fs.isDirectory p then .ok () fs else .error fault fs

/-- Creates `p`, and first the directories above it where one of them is missing. -/
def createAllAbove (p : Path) : (above : List Path) → Action Fault Unit
  | [] => if p.isEmpty then pure () else mkdirOrAccept p
  | next :: above =>
      if p.isEmpty then pure ()
      else fun fs =>
        match fs.mkdir p with
        | .error .notFound => (do createAllAbove next above; mkdirOrAccept p) fs
        | _ => mkdirOrAccept p fs

def createAll (p : Path) : Action Fault Unit :=
  createAllAbove p p.ancestors

/-- The directory in which `p` stands. -/
def directoryOf (p : Path) : Except Fault Path :=
  match p.parent? with
  | some above => .ok (if above.isEmpty then Path.ofString "." else above)
  | none => .error (.noParent p)

/-- Runs `body` with an empty temporary file in the directory `p`; the file is removed if `body`
fails. -/
def withTemporaryFile (p : Path) (body : Location → Action Fault Unit) : Action Fault Unit := do
  let (location, _) ← Action.query fun fs => fs.temporary p
  modify fun fs => fs.set location (.file [] 0o600)
  Action.onFailure (fun fs => fs.erase location) (body location)

/-- Runs `body` with an empty temporary directory in the directory `p`; the directory is removed
with all that is in it if `body` fails. -/
def withTemporaryDirectory (p : Path) (body : Location → Path → Action Fault Unit) :
    Action Fault Unit := do
  let (location, path) ← Action.query fun fs => fs.temporary p
  modify fun fs => fs.set location .directory
  Action.onFailure (fun fs => fs.eraseTree location) (body location path)

/-- Writes a whole file into the directory `parent` under a temporary name and gives it the name
`p`; the content is found only after the temporary file was made. -/
def placeFile (parent p : Path) (content : FileSystem → Except Fault (Bytes × Nat)) :
    Action Fault Unit :=
  withTemporaryFile parent fun location => do
    let (bytes, mode) ← Action.query content
    modify fun fs => fs.set location (.file bytes mode)
    Action.step fun fs => fs.rename location p

def writeAtomically (p : Path) (content : Bytes) : Action Fault Unit := do
  let parent ← Action.query fun _ => directoryOf p
  createAll parent
  placeFile parent p fun _ => .ok (content, 0o600)

/-- Copies content and permission bits. -/
def copyAtomically (source p : Path) : Action Fault Unit := do
  let parent ← Action.query fun _ => directoryOf p
  createAll parent
  placeFile parent p fun fs => fs.readFile source

end FileSystem
end StackSynth
