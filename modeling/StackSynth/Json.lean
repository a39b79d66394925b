import StackSynth.Decimal.Binary64
import StackSynth.Dictionary

/-!
# Json — documents

A document is a tree of scalars, arrays and objects.  Numbers are exact integers or finite
doubles.  An object is a list of members; as read from text it may hold a key twice and in any
order, and `Json.canonical` turns every object of a tree into a dictionary, where the last
member of a key stands.

* `Json.member?` — a member of an object, and nothing of any other document;
* `Json.Canonical` — every object of the tree is a dictionary;
* `Json.canonical` — the canonical form of a tree.
-/

namespace StackSynth

inductive Number where
  | integer (value : Int)
  | double (value : Binary64)
  deriving DecidableEq

inductive Json where
  | null
  | bool (value : Bool)
  | number (value : Number)
  | string (value : String)
  | array (items : List Json)
  | object (members : List (String × Json))
  deriving Inhabited

namespace Json

/-! ## Access -/

def member? : Json → String → Option Json
  | .object members, key => Dictionary.get? members key
  | _, _ => none

/-- The member under a key, or `null` where there is none. -/
def memberOrNull (doc : Json) (key : String) : Json :=
  (doc.member? key).getD .null

def string? : Json → Option String
  | .string value => some value
  | _ => none

def members? : Json → Option (Dictionary Json)
  | .object members => some members
  | _ => none

def items? : Json → Option (List Json)
  | .array items => some items
  | _ => none

def bool? : Json → Option Bool
  | .bool value => some value
  | _ => none

def int? : Json → Option Int
  | .number (.integer value) => some value
  | _ => none

def ofNat (n : Nat) : Json :=
  .number (.integer n)

/-- Text, or `null` where there is none. -/
def ofOption : Option String → Json
  | some text => .string text
  | none => .null

/-! ## Canonical form -/

mutual

def canonical : Json → Json
  | .array items => .array (canonicalItems items)
  | .object members => .object (Dictionary.ofList (canonicalMembers members))
  | .null => .null
  | .bool value => .bool value
  | .number value => .number value
  | .string value => .string value

def canonicalItems : List Json → List Json
  | [] => []
  | item :: rest => canonical item :: canonicalItems rest

def canonicalMembers : List (String × Json) → List (String × Json)
  | [] => []
  | (key, value) :: rest => (key, canonical value) :: canonicalMembers rest

end

mutual

/-- Every object of the tree is a dictionary. -/
def Canonical : Json → Prop
  | .array items => CanonicalItems items
  | .object members => Dictionary.Sorted members ∧ CanonicalMembers members
  | .null => True
  | .bool _ => True
  | .number _ => True
  | .string _ => True

def CanonicalItems : List Json → Prop
  | [] => True
  | item :: rest => Canonical item ∧ CanonicalItems rest

def CanonicalMembers : List (String × Json) → Prop
  | [] => True
  | (_, value) :: rest => Canonical value ∧ CanonicalMembers rest

end

end Json
end StackSynth
