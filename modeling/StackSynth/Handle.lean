import StackSynth.ModuleCall
import StackSynth.Resource

/-!
# Handle — a registered construct that others may refer to

Resources are referred to by `type.name` and module calls by `module.name`.
-/

namespace StackSynth

inductive Handle where
  | resource (type : ResourceType) (id : ConstructId)
  | module (id : ConstructId)
  deriving DecidableEq

namespace Handle

def address : Handle → String
  | .resource type id => type.text ++ "." ++ id.text
  | .module id => "module." ++ id.text

/-- The attribute of the construct with a name. -/
def get (handle : Handle) (name : String) : Reference :=
  ⟨handle.address, name⟩

end Handle

def Resource.handle (resource : Resource) : Handle :=
  .resource resource.type resource.id

def ModuleCall.handle (call : ModuleCall) : Handle :=
  .module call.id

end StackSynth
