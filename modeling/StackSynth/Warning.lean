import StackSynth.EditDistance
import StackSynth.Path

/-!
# Warning — unknown keys of configuration files

A key that no record knows is no failure, but the user is told: the key, the first line on which
its text stands, and the known key that it may have been meant to be.
-/

namespace StackSynth

structure Warning where
  key : String
  file : Path
  line : Option Nat
  suggestion : Option String

namespace Warning

/-- The keys that records know, in the order of preference. -/
def knownKeys : List String :=
  ["app", "outdir", "log", "stack", "name", "providers", "source", "version", "alias", "assets",
    "id", "path", "type", "resources", "outputs", "value", "description", "sensitive", "modules",
    "inputs"]

/-- The greatest distance of a suggestion. -/
def suggestionLimit : Nat := 2

def distance (a b : String) : Nat :=
  EditDistance.distance (Utf8.encode a) (Utf8.encode b)

/-- The first of the nearest words, with its distance. -/
def nearest? (unknown : String) : List String → Option (String × Nat)
  | [] => none
  | word :: words =>
      let here := (word, distance unknown word)
      match nearest? unknown words with
      | none => some here
      | some other => if other.2 < here.2 then some other else some here

/-- The known key that an unknown one may stand for. -/
def suggestion? (unknown : String) : Option String :=
  match nearest? unknown knownKeys with
  | none => none
  | some (word, far) => if 0 < far && far ≤ suggestionLimit then some word else none

/-- The number of the first line that holds a text; lines are numbered from one. -/
def lineOf? (content text : String) : Option Nat :=
  ((Text.lines content).findIdx? fun line => Text.occurs text line).map (· + 1)

/-- What stands behind the last dot. -/
def lastField (path : String) : String :=
  String.ofList ((Text.fields '.' path.toList).getLastD [])

/-- The warning about the key at the end of a dotted path. -/
def ofPath (file : Path) (content path : String) : Warning :=
  let key := lastField path
  ⟨key, file, lineOf? content key, suggestion? key⟩

/-- The warnings about unknown keys, each given by the keys that lead to it. -/
def ofKeys (file : Path) (content : String) (unknown : List (List String)) : List Warning :=
  unknown.map fun keys => ofPath file content (Text.joinWith "." keys)

def message (warning : Warning) : String :=
  "unknown key '" ++ warning.key ++ "' in " ++ warning.file.display
    ++ (match warning.line with
      | some line => ":" ++ toString line
      | none => "")
    ++ (match warning.suggestion with
      | some word => " (did you mean '" ++ word ++ "'?)"
      | none => "")

end Warning
end StackSynth
