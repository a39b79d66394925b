import StackSynth.ConstructId
import StackSynth.Expression

/-!
# Resource — a managed object

A resource has a type, a name and attributes; its address is `type.name`.  Resources of some
known types have to state certain attributes.
-/

namespace StackSynth

structure Resource where
  type : ResourceType
  id : ConstructId
  attributes : Attributes

namespace Resource

def make (type id : String) : Except Failure Resource := do
  let type ← ResourceType.ofText type
  let id ← ConstructId.ofText id
  return ⟨type, id, []⟩

/-- The resource with an attribute set. -/
def set (resource : Resource) (name : String) (value : Expression) : Resource :=
  { resource with attributes := resource.attributes.insert name value }

def address (resource : Resource) : String :=
  resource.type.text ++ "." ++ resource.id.text

def json (resource : Resource) : Json :=
  .object resource.attributes.json

/-! ## Required attributes -/

def bucketType : String := "aws_s3_bucket"
def bucketObjectType : String := "aws_s3_bucket_object"
def objectType : String := "aws_s3_object"

/-- The attributes that resources of a type have to state. -/
def required (type : String) : List String :=
  if type = bucketType then ["bucket"]
  else if type = bucketObjectType || type = objectType then ["bucket", "key", "source"]
  else []

/-- An attribute is there and not blank. -/
def states (resource : Resource) (name : String) : Bool :=
  match resource.attributes.get? name with
  | some value => !value.isBlank
  | none => false

/-- The first required attribute that a resource does not state. -/
def missing? (resource : Resource) : Option String :=
  (required resource.type.text).find? fun name => !resource.states name

def validate (resource : Resource) : Except Failure Unit :=
  match resource.missing? with
  | some name => .error (.emptyField resource.address name)
  | none => .ok ()

end Resource
end StackSynth
