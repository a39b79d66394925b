import StackSynth.App
import StackSynth.Json.Parser

/-!
# Plan — the document of a stack

A plan is the document that deploys a stack.  It has a section for each kind of construct that
the stack holds: required providers, providers by name, resources by type and name, module calls
and outputs by name.  A section without constructs is left out.

* `Plan.ofStack` — the plan of a stack;
* `Plan.load` — a plan as it stands in a file, which may be any document;
* `Plan.resourcesOf`, `Plan.resource?`, `Plan.resourceCount`, `Plan.output?` — views of a plan
  that answer for every document.
-/

namespace StackSynth

structure Plan where
  document : Json

namespace Plan

/-! ## The plan of a stack -/

/-- The name of the file of a plan. -/
def fileName : String := "cdk.tf.json"

def metadata (name : String) : Json :=
  .object [("metadata", .object
    [("backend", .string "local"), ("stackName", .string name), ("version", .string release)])]

/-- What is required of the installation of a provider. -/
def requirement (provider : Provider) : Json :=
  let source := ("source", Json.string provider.source)
  match provider.version with
  | some version => .object [source, ("version", .string version)]
  | none => .object [source]

/-- The requirements by name of the provider; of several providers with one name, the last one
is heard. -/
def requirements (providers : List Provider) : Dictionary Json :=
  Dictionary.ofList (providers.map fun provider => (provider.name.text, requirement provider))

def providersByName (providers : List Provider) : Dictionary Json :=
  (Dictionary.grouped (providers.map fun provider => (provider.name.text, provider.json))).mapValues
    Json.array

def resourcesByType (resources : List Resource) : Dictionary Json :=
  let members := resources.map fun resource =>
    (resource.type.text, (resource.id.text, resource.json))
  (Dictionary.grouped members).mapValues fun members => .object (Dictionary.ofList members)

def modulesById (modules : List ModuleCall) : Dictionary Json :=
  Dictionary.ofList (modules.map fun call => (call.id.text, call.json))

def outputsById (outputs : List Output) : Dictionary Json :=
  Dictionary.ofList (outputs.map fun output => (output.id.text, output.json))

/-- A section that is not empty. -/
def part (key : String) (members : Dictionary Json) : List (String × Json) :=
  if members.isEmpty then [] else [(key, .object members)]

/-- The requirements as a section. -/
def installation (providers : List Provider) : Dictionary Json :=
  part "required_providers" (requirements providers)

def ofStack (stack : Stack) : Plan where
  document := .object <| Dictionary.ofList <|
    [("//", metadata stack.name.text)]
      ++ part "terraform" (installation stack.providers)
      ++ part "provider" (providersByName stack.providers)
      ++ part "resource" (resourcesByType stack.resources)
      ++ part "module" (modulesById stack.modules)
      ++ part "output" (outputsById stack.outputs)

/-! ## Views -/

def stackName? (plan : Plan) : Option String :=
  (((plan.document.memberOrNull "//").memberOrNull "metadata").memberOrNull "stackName").string?

def resources (plan : Plan) : Json :=
  plan.document.memberOrNull "resource"

/-- The resources of a type, each under its name. -/
def resourcesOf (plan : Plan) (type : String) : Dictionary Json :=
  ((plan.resources.memberOrNull type).members?).getD []

def resource? (plan : Plan) (type id : String) : Option Json :=
  (plan.resources.memberOrNull type).member? id

/-- How many resources of all types there are. -/
def resourceCount (plan : Plan) : Nat :=
  ((plan.resources.members?.getD []).flatMap fun entry => entry.2.members?.getD []).length

/-- The value of an output; one that states none has the value `null`. -/
def output? (plan : Plan) (id : String) : Option Json :=
  ((plan.document.memberOrNull "output").member? id).map fun output => output.memberOrNull "value"

/-! ## Files -/

def load (fs : FileSystem) (file : Path) : Except Failure Plan := do
  let text ← (fs.readText file).mapError Failure.disk
  match Json.parse? text with
  | some document => return ⟨document⟩
  | none => throw (.document .malformed)

end Plan
end StackSynth
