import StackSynth.Json
import StackSynth.Toml.DateTime

/-!
# Toml — values of configuration files

A value is a scalar, an array or a table; the entries of a table stand in the order of the
document.  `Toml.json` is the same value as a JSON document: tables become objects, numbers that
are not finite become `null`, and a date-time becomes an object with its text in it.
-/

namespace StackSynth

inductive Toml where
  | string (value : String)
  | integer (value : Int)
  | double (value : Binary64)
  | bool (value : Bool)
  | dateTime (value : DateTime)
  | array (items : List Toml)
  /-- An array of tables with a header for each of them. -/
  | tables (items : List Toml)
  | table (entries : List (String × Toml))
  deriving Inhabited

namespace Toml

/-- The key under which the text of a date-time is kept in JSON. -/
def dateTimeKey : String := "$__toml_private_datetime"

def jsonDouble (value : Binary64) : Json :=
  if value.isFinite then .number (.double value) else .null

mutual

def json : Toml → Json
  | .string value => .string value
  | .integer value => .number (.integer value)
  | .double value => jsonDouble value
  | .bool value => .bool value
  | .dateTime value => .object [(dateTimeKey, .string value.text)]
  | .array items => .array (jsonItems items)
  | .tables items => .array (jsonItems items)
  | .table entries => .object (Dictionary.ofList (jsonEntries entries))

def jsonItems : List Toml → List Json
  | [] => []
  | item :: rest => json item :: jsonItems rest

def jsonEntries : List (String × Toml) → List (String × Json)
  | [] => []
  | (key, value) :: rest => (key, json value) :: jsonEntries rest

end

end Toml
end StackSynth
