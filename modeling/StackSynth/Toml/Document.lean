import StackSynth.Toml

/-!
# Document — from statements to one table

A file is a list of statements: table headers, headers of rows of an array of tables, and
assignments to keys of the table opened last.  `Document.ofStatements?` puts them together, and
gives nothing if a key is assigned twice, a table is opened twice, or a value is used as a table.

A table is *written* if it has a header of its own, *dotted* if a dotted key brought it about,
and *implied* if only headers below it did.  Dotted keys reach into dotted and implied tables
only, and a header may open an implied table, which then moves behind its neighbours.
-/

namespace StackSynth
namespace Toml

/-- A statement of a file.  The path of a header or of a key is not empty; its last key stands
apart. -/
inductive Statement where
  | header (above : List String) (key : String)
  | row (above : List String) (key : String)
  | assign (above : List String) (key : String) (value : Toml)

inductive Origin where
  | written
  | dotted
  | implied
  deriving DecidableEq

inductive Item where
  | value (value : Toml)
  | table (origin : Origin) (entries : List (String × Item))
  /-- The rows of an array of tables, the last one first. -/
  | rows (rows : List (List (String × Item)))

/-- Entries in the order of the document. -/
abbrev Entries := List (String × Item)

namespace Entries

def find? (entries : Entries) (key : String) : Option Item :=
  (List.find? (fun entry => entry.1 == key) entries).map (·.2)

/-- Replaces the item under a key that is there, and appends one that is not. -/
def put (entries : Entries) (key : String) (item : Item) : Entries :=
  if entries.any fun entry => entry.1 == key then
    entries.map fun entry => if entry.1 == key then (key, item) else entry
  else entries ++ [(key, item)]

def remove (entries : Entries) (key : String) : Entries :=
  entries.filter fun entry => entry.1 != key

/-- Changes the table at the end of a path.  Tables that are missing on the way are brought
about; in an array of tables the way goes through its last row. -/
def modify (byDots : Bool) (change : Origin → Entries → Option Entries) :
    (path : List String) → Origin → Entries → Option Entries
  | [], origin, entries => change origin entries
  | key :: path, _, entries =>
      match entries.find? key with
      | none => do
          let origin := if byDots then .dotted else .implied
          let inner ← modify byDots change path origin []
          return entries.put key (.table origin inner)
      | some (.value _) => none
      | some (.table origin inner) =>
          if byDots && origin == .written then none
          else do
            let inner ← modify byDots change path origin inner
            return entries.put key (.table origin inner)
      | some (.rows []) => none
      | some (.rows (last :: earlier)) => do
          let last ← modify byDots change path .written last
          return entries.put key (.rows (last :: earlier))

end Entries

/-! ## Statement by statement -/

/-- The table that is being filled, and where it goes. -/
inductive Target where
  | root
  | table (above : List String) (key : String)
  | row (above : List String) (key : String)

structure Document where
  root : Entries
  target : Target
  filling : Entries

namespace Document

def start : Document :=
  ⟨[], .root, []⟩

/-- Puts the filled table where it belongs. -/
def close (doc : Document) : Option Entries :=
  match doc.target with
  | .root => some doc.filling
  | .table above key =>
      doc.root.modify false (fun _ entries => some (entries.put key (.table .written doc.filling)))
        above .written
  | .row above key =>
      doc.root.modify false
        (fun _ entries =>
          match entries.find? key with
          | some (.rows rows) => some (entries.put key (.rows (doc.filling :: rows)))
          | _ => none)
        above .written

/-- The entries that a header finds: those of an implied table, which is taken out. -/
def openTable (key : String) (entries : Entries) : Option (Entries × Entries) :=
  match entries.find? key with
  | none => some (entries, [])
  | some (.table .implied inner) => some (entries.remove key, inner)
  | some _ => none

/-- What a header finds at the end of its path. -/
def found? (root : Entries) (above : List String) (key : String) : Option Entries :=
  match above, root with
  | [], entries => (openTable key entries).map (·.2)
  | next :: above, entries =>
      match entries.find? next with
      | none => some []
      | some (.value _) => none
      | some (.table _ inner) => found? inner above key
      | some (.rows []) => none
      | some (.rows (last :: _)) => found? last above key

def openHeader (root : Entries) (above : List String) (key : String) : Option Document := do
  let filling ← found? root above key
  let root ← root.modify false (fun _ entries => (openTable key entries).map (·.1)) above .written
  return ⟨root, .table above key, filling⟩

def openRow (root : Entries) (above : List String) (key : String) : Option Document := do
  let root ← root.modify false
    (fun _ entries =>
      match entries.find? key with
      | none => some (entries.put key (.rows []))
      | some (.rows _) => some entries
      | some _ => none)
    above .written
  return ⟨root, .row above key, []⟩

/-- An assignment to a new key, in a table that the dots before it may reach. -/
def assigned (viaDots : Bool) (key : String) (value : Toml) (origin : Origin) (entries : Entries) :
    Option Entries :=
  if viaDots && origin != .dotted then none
  else
    match entries.find? key with
    | some _ => none
    | none => some (entries.put key (.value value))

def add (doc : Document) : Statement → Option Document
  | .header above key => do openHeader (← doc.close) above key
  | .row above key => do openRow (← doc.close) above key
  | .assign above key value => do
      let filling ← doc.filling.modify true (assigned (!above.isEmpty) key value) above .written
      return { doc with filling := filling }

/-! ## The finished table -/

end Document

mutual

def Item.toml : Item → Toml
  | .value value => value
  | .table _ entries => .table (entriesToml entries)
  | .rows rows => .tables (rowsToml rows).reverse

def entriesToml : List (String × Item) → List (String × Toml)
  | [] => []
  | (key, item) :: rest => (key, item.toml) :: entriesToml rest

def rowsToml : List (List (String × Item)) → List Toml
  | [] => []
  | row :: rest => .table (entriesToml row) :: rowsToml rest

end

def Document.ofStatements? (statements : List Statement) : Option Toml := do
  let doc ← statements.foldlM Document.add Document.start
  return .table (entriesToml (← doc.close))

/-- An inline table from its assignments. -/
def inlineTable? (pairs : List (List String × String × Toml)) : Option Toml := do
  let entries ← pairs.foldlM
    (fun (entries : Entries) pair =>
      entries.modify true (Document.assigned (!pair.1.isEmpty) pair.2.1 pair.2.2) pair.1 .written)
    []
  return .table (entriesToml entries)

end Toml
end StackSynth
