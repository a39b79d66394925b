import StackSynth.FileSystem.Fault

/-!
# FileSystem — places and what stands at them

A file system is a finite map from locations to objects, together with the current directory.
A location is the list of names from an object up to the root, so that `name :: l` is a child of
`l` and `[]` is the root, which is always a directory.

* `FileSystem.get?` looks a location up;
* `FileSystem.set`, `FileSystem.erase`, `FileSystem.eraseTree`, `FileSystem.moveTree` change the
  map, and the laws `get?_set`, `get?_erase`, `get?_eraseTree` say how;
* `FileSystem.children` lists the names in a directory, in no particular order;
* `FileSystem.WellFormed` — every object but the root stands in a directory.
-/

namespace StackSynth

/-- Names from an object up to the root. -/
abbrev Location := List Name

inductive Object where
  /-- Content and permission bits. -/
  | file (content : Bytes) (mode : Nat)
  | directory
  | link (target : Path)
  | pipe
  deriving DecidableEq

structure FileSystem where
  objects : List (Location × Object)
  current : Location

namespace Location

/-- `l` is `base` or lies below it. -/
def within (base l : Location) : Bool :=
  base.isSuffixOf l

/-- The location that takes the place of `l` when `base` becomes `target`. -/
def rebase (base target l : Location) : Location :=
  if within base l then l.take (l.length - base.length) ++ target else l

end Location

namespace FileSystem

/-! ## The map -/

def lookup (l : Location) : List (Location × Object) → Option Object
  | [] => none
  | (k, object) :: rest => if k = l then some object else lookup l rest

def get? (fs : FileSystem) (l : Location) : Option Object :=
  if l = [] then some .directory else lookup l fs.objects

def set (fs : FileSystem) (l : Location) (object : Object) : FileSystem :=
  { fs with objects := (l, object) :: fs.objects.filter fun entry => entry.1 ≠ l }

def erase (fs : FileSystem) (l : Location) : FileSystem :=
  { fs with objects := fs.objects.filter fun entry => entry.1 ≠ l }

/-- Without the object at `l` and all below it. -/
def eraseTree (fs : FileSystem) (l : Location) : FileSystem :=
  { fs with objects := fs.objects.filter fun entry => !Location.within l entry.1 }

/-- The object at `source`, with all below it, stands at `target` instead. -/
def moveTree (fs : FileSystem) (source target : Location) : FileSystem :=
  { fs with objects := fs.objects.map fun entry =>
      (Location.rebase source target entry.1, entry.2) }

/-- The name of a location in the directory `l`. -/
def nameIn? (l : Location) : Location → Option Name
  | name :: directory => if directory = l then some name else none
  | [] => none

def children (fs : FileSystem) (l : Location) : List Name :=
  fs.objects.filterMap fun entry => nameIn? l entry.1

/-- Every object but the root stands in a directory, and stands there once. -/
structure WellFormed (fs : FileSystem) : Prop where
  parent : ∀ name l object, fs.get? (name :: l) = some object → fs.get? l = some .directory
  once : (fs.objects.map (·.1)).Nodup

/-- A file system with nothing in it. -/
def empty : FileSystem :=
  ⟨[], []⟩

/-! ## Laws -/

theorem lookup_filter (l : Location) (keep : Location → Bool) (objects : List (Location × Object)) :
    lookup l (objects.filter fun entry => keep entry.1)
      = if keep l then lookup l objects else none := by
  induction objects with
  | nil => simp [lookup]
  | cons entry rest ih =>
      obtain ⟨k, object⟩ := entry
      simp only [List.filter_cons, lookup]
      by_cases same : k = l
      · subst same
        by_cases kept : keep k = true <;> simp [kept, lookup, ih]
      · by_cases kept : keep k = true <;> simp [kept, lookup, same, ih]

theorem get?_root (fs : FileSystem) : fs.get? [] = some .directory := by
  simp [get?]

theorem get?_set (fs : FileSystem) (l m : Location) (object : Object) (inside : l ≠ []) :
    (fs.set l object).get? m = if m = l then some object else fs.get? m := by
  unfold get? set
  by_cases root : m = []
  · subst root
    simp [Ne.symm inside]
  · by_cases same : m = l
    · subst same
      simp [root, lookup]
    · have other := lookup_filter m (fun k => decide (k ≠ l)) fs.objects
      simp only [lookup, root, if_false, same, Ne.symm same]
      simpa [same] using other

theorem get?_erase (fs : FileSystem) (l m : Location) (inside : l ≠ []) :
    (fs.erase l).get? m = if m = l then none else fs.get? m := by
  unfold get? erase
  by_cases root : m = []
  · subst root
    simp [Ne.symm inside]
  · have kept := lookup_filter m (fun k => decide (k ≠ l)) fs.objects
    by_cases same : m = l
    · subst same
      simpa [root] using kept
    · simpa [root, same] using kept

theorem get?_eraseTree (fs : FileSystem) (l m : Location) (inside : l ≠ []) :
    (fs.eraseTree l).get? m = if Location.within l m then none else fs.get? m := by
  unfold get? eraseTree
  by_cases root : m = []
  · subst root
    have : Location.within l [] = false := by
      cases l with
      | nil => exact absurd rfl inside
      | cons name rest => simp [Location.within, List.isSuffixOf]
    simp [this]
  · have kept := lookup_filter m (fun k => !Location.within l k) fs.objects
    simp only [root, if_false, kept]
    by_cases below : Location.within l m = true <;> simp [below]

end FileSystem
end StackSynth
