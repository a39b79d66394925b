import StackSynth.Name
import StackSynth.Text

/-!
# Path — spellings of places in a file system

A path is text: octets with slashes between names.  Its spelling is kept, since it is shown to
the user, and read in two ways:

* `Path.components` is the reading by name: repeated slashes and inner dots are dropped, while
  `..` stays.  Two paths with the same components are the same name, `Path.parent?` drops the
  last component, and `Path.below?` compares components.
* `Path.steps` (with `Path.wantsDirectory`) is the reading by walking: what is looked up, one
  after another, from the root or the current directory.
-/

namespace StackSynth

/-- A path as it is written. -/
structure Path where
  bytes : Bytes
  deriving DecidableEq, Inhabited

/-- A component of a path read by name. -/
inductive Component where
  | root
  | current
  | parent
  | name (bytes : Bytes)
  deriving DecidableEq

def Component.bytes : Component → Bytes
  | .root => [slash]
  | .current => [dot]
  | .parent => [dot, dot]
  | .name bytes => bytes

namespace Path

def ofString (text : String) : Path :=
  ⟨Utf8.encode text⟩

/-- The path for readers; names that are not text show replacement characters. -/
def display (p : Path) : String :=
  Utf8.display p.bytes

def isAbsolute (p : Path) : Bool :=
  p.bytes.head? == some slash

def isEmpty (p : Path) : Bool :=
  p.bytes.isEmpty

/-! ## Reading by name -/

/-- The fields of a spelling, each with the position after it; `start` is the position of the
first one. -/
def place (start : Nat) : List Bytes → List (Bytes × Nat)
  | [] => []
  | field :: rest => (field, start + field.length) :: place (start + field.length + 1) rest

/-- What a field other than the first contributes. -/
def component? (field : Bytes) : Option Component :=
  if field.isEmpty || field == [dot] then none
  else if field == [dot, dot] then some .parent
  else some (.name field)

def inner (placed : List (Bytes × Nat)) : List (Component × Nat) :=
  placed.filterMap fun p => (component? p.1).map fun c => (c, p.2)

/-- The components, each with the position after it. -/
def located (p : Path) : List (Component × Nat) :=
  match place 0 (p.bytes.splitOn slash) with
  | [] => []
  | first :: rest =>
      if p.isAbsolute then (.root, 1) :: inner rest
      else if first.1 == [dot] then (.current, first.2) :: inner rest
      else inner (first :: rest)

def components (p : Path) : List Component :=
  p.located.map (·.1)

/-- The same name, though perhaps another spelling. -/
def sameName (p q : Path) : Bool :=
  p.components == q.components

/-- The paths that name the directories above, the nearest first.  A relative path ends with
the empty path, an absolute one with its root. -/
def ancestors (p : Path) : List Path :=
  match p.located.reverse with
  | [] => []
  | _ :: above =>
      above.map (fun c => ⟨p.bytes.take c.2⟩) ++ (if p.isAbsolute then [] else [⟨[]⟩])

/-- The path up to its last component: nothing for the empty path and for a root. -/
def parent? (p : Path) : Option Path :=
  p.ancestors.head?

/-- The last component, if it is a name. -/
def fileName? (p : Path) : Option Bytes :=
  match p.components.getLast? with
  | some (.name bytes) => some bytes
  | _ => none

/-- The components of `p` below `base`. -/
def below? (base p : Path) : Option (List Component) :=
  if base.components.isPrefixOf p.components then
    some (p.components.drop base.components.length)
  else none

/-! ## Stem and extension -/

/-- A name as stem and extension, divided at the last dot.  A name without a dot, or with its
only dot in front, is all stem. -/
def stemAndExtension (name : Bytes) : Bytes × Option Bytes :=
  let after := (name.reverse.takeWhile (· != dot)).reverse
  let before := name.take (name.length - after.length - 1)
  if before.isEmpty then (name, none) else (before, some after)

def extension? (p : Path) : Option Bytes := do
  let name ← p.fileName?
  (stemAndExtension name).2

def stem? (p : Path) : Option Bytes := do
  let name ← p.fileName?
  return (stemAndExtension name).1

/-! ## Building -/

/-- `q` seen from `p`: an absolute path replaces what stands before it. -/
def join (p q : Path) : Path :=
  if q.isAbsolute || p.isEmpty then q
  else if p.bytes.getLast? == some slash then ⟨p.bytes ++ q.bytes⟩
  else ⟨p.bytes ++ slash :: q.bytes⟩

instance : Div Path := ⟨join⟩

/-- A name below a path. -/
def child (p : Path) (name : Name) : Path :=
  if p.isEmpty then ⟨name.bytes⟩
  else if p.bytes.getLast? == some slash then ⟨p.bytes ++ name.bytes⟩
  else ⟨p.bytes ++ slash :: name.bytes⟩

theorem length_lt_child (p : Path) (name : Name) :
    p.bytes.length < (p.child name).bytes.length := by
  have positive := name.length_pos
  unfold child
  split
  · rename_i empty
    have : p.bytes = [] := by simpa [isEmpty] using empty
    simpa [this] using positive
  · split
    · simp only [List.length_append]; omega
    · simp only [List.length_append, List.length_cons]; omega

/-- Text below a path. -/
def childText (p : Path) (name : String) : Path :=
  p / ofString name

/-- Components with slashes between them, as text for readers. -/
def slashed (components : List Component) : String :=
  Text.joinWith "/" (components.map fun c => Utf8.display c.bytes)

/-! ## Reading by walking -/

/-- One step of a walk. -/
inductive Step where
  | stay
  | up
  | down (name : Name)
  deriving DecidableEq

/-- The step of a field.  An empty field is none, and neither is one that cannot be a name. -/
def step? (field : Bytes) : Option Step :=
  if field == [dot] then some .stay
  else if field == [dot, dot] then some .up
  else (Name.ofBytes? field).map .down

def steps (p : Path) : List Step :=
  (p.bytes.splitOn slash).filterMap step?

/-- The spelling ends with a slash, so that only a directory can be meant. -/
def wantsDirectory (p : Path) : Bool :=
  p.bytes.getLast? == some slash

end Path
end StackSynth
