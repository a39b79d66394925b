import StackSynth.ConstructId
import StackSynth.Expression

/-!
# ModuleCall — the use of a module from elsewhere

A call names the source of the module, perhaps its version, and the inputs.  Source and version
stand beside the inputs in the document and take precedence over inputs of the same name.
-/

namespace StackSynth

structure ModuleCall where
  id : ConstructId
  source : String
  version : Option String
  inputs : Attributes

namespace ModuleCall

def make (id source : String) : Except Failure ModuleCall := do
  let id ← ConstructId.ofText id
  if Text.isBlank source then throw (.emptyField ("module." ++ id.text) "source")
  return ⟨id, source, none, []⟩

def set (call : ModuleCall) (name : String) (value : Expression) : ModuleCall :=
  { call with inputs := call.inputs.insert name value }

def json (call : ModuleCall) : Json :=
  let body := call.inputs.json.insert "source" (.string call.source)
  .object <|
    match call.version with
    | some version => body.insert "version" (.string version)
    | none => body

end ModuleCall
end StackSynth
