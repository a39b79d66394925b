import StackSynth.Json
import StackSynth.Text

/-!
# Expression — values of attributes

An attribute is given as a document or as a reference to an attribute of another construct.  A
reference is written `${address.attribute}`.
-/

namespace StackSynth

/-- An attribute of the construct at an address. -/
structure Reference where
  address : String
  name : String
  deriving DecidableEq

/-- The reference between `${` and a closing brace. -/
def Reference.text (reference : Reference) : String :=
  "$\x7b" ++ reference.address ++ "." ++ reference.name ++ "\x7d"

inductive Expression where
  | literal (value : Json)
  | reference (target : Reference)

namespace Expression

def ofText (text : String) : Expression :=
  .literal (.string text)

/-- Nothing is there: `null`, or text that is nothing but space. -/
def isBlank : Expression → Bool
  | .literal (.string text) => Text.isBlank text
  | .literal .null => true
  | _ => false

def json : Expression → Json
  | .literal value => value
  | .reference target => .string target.text

end Expression

/-- Expressions under the names of attributes. -/
abbrev Attributes := Dictionary Expression

def Attributes.json (attributes : Attributes) : Dictionary Json :=
  attributes.mapValues Expression.json

end StackSynth
