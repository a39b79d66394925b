import StackSynth.FileSystem

/-!
# Resolve — from a path to a location

A path is walked one step at a time, from the root or from the current directory.  A symbolic
link is replaced by the steps of its target; one walk crosses at most `linkLimit` links.  Every
step but the last has to lead to a directory, and the last one may find nothing.

* `FileSystem.walk` — the walk itself; it ends because each link uses up the limit and every
  other step shortens what is left to walk;
* `FileSystem.locate` — the place that a path names, with or without following a last link;
* `FileSystem.slot` — the directory and the name under which a path would be created.
-/

namespace StackSynth

/-- A location, and what stands there. -/
structure Place where
  location : Location
  object : Option Object

/-- A name in a directory that exists. -/
structure Slot where
  directory : Location
  name : Name

def Slot.location (s : Slot) : Location :=
  s.name :: s.directory

namespace FileSystem

/-- The most links that one walk crosses. -/
def linkLimit : Nat := 40

/-- The most octets of a name. -/
def nameLimit : Nat := 255

/-- A path is shorter than this. -/
def pathLimit : Nat := 4096

/-- Where a walk of `p` begins. -/
def origin (here : Location) (p : Path) : Location :=
  if p.isAbsolute then [] else here

/-- The steps of a path; a last slash asks for a directory. -/
def stepsOf (p : Path) : List Path.Step :=
  if p.wantsDirectory then p.steps ++ [.stay] else p.steps

/-- Walks from the directory `here`.  A link at the very end is crossed if `follow` is set. -/
def walk (fs : FileSystem) (follow : Bool) (links : Nat) (here : Location) :
    List Path.Step → Except Fault Place
  | [] => .ok ⟨here, some .directory⟩
  | .stay :: rest => walk fs follow links here rest
  | .up :: rest => walk fs follow links here.tail rest
  | .down name :: rest =>
      if nameLimit < name.bytes.length then .error .nameTooLong
      else
        match fs.get? (name :: here) with
        | none => if rest.isEmpty then .ok ⟨name :: here, none⟩ else .error .notFound
        | some .directory => walk fs follow links (name :: here) rest
        | some (.link target) =>
            if rest.isEmpty && !follow then .ok ⟨name :: here, some (.link target)⟩
            else
              match links with
              | 0 => .error .tooManyLinks
              | links + 1 =>
                  walk fs follow links (origin here target) (stepsOf target ++ rest)
        | some object =>
            if rest.isEmpty then .ok ⟨name :: here, some object⟩ else .error .notDirectory
termination_by steps => (links, steps.length)

/-- What is wrong with the spelling of a path. -/
def misspelled? (p : Path) : Option Fault :=
  if p.bytes.contains 0 then some .zeroInPath
  else if p.isEmpty then some .notFound
  else if pathLimit ≤ p.bytes.length then some .nameTooLong
  else none

def locate (fs : FileSystem) (follow : Bool) (p : Path) : Except Fault Place :=
  match misspelled? p with
  | some fault => .error fault
  | none => walk fs follow linkLimit (origin fs.current p) (stepsOf p)

/-- The directory and the name under which `p` stands or would stand; `onDots` is the fault for
a path that ends at a root or in dots. -/
def slot (fs : FileSystem) (onDots : Fault) (p : Path) : Except Fault Slot :=
  match misspelled? p with
  | some fault => .error fault
  | none => do
      let above ← walk fs true linkLimit (origin fs.current p) (p.steps.dropLast ++ [.stay])
      match p.steps.getLast? with
      | some (.down name) =>
          if nameLimit < name.bytes.length then throw .nameTooLong
          return ⟨above.location, name⟩
      | _ => throw onDots

end FileSystem
end StackSynth
