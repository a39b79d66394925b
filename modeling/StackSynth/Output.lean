import StackSynth.ConstructId
import StackSynth.Expression

/-!
# Output — a value that a stack shows

The value of an output is never blank.
-/

namespace StackSynth

structure Output where
  id : ConstructId
  value : Expression
  description : Option String
  sensitive : Bool
  stated : value.isBlank = false

namespace Output

def make (id : String) (value : Expression) (description : Option String) (sensitive : Bool) :
    Except Failure Output := do
  let id ← ConstructId.ofText id
  if stated : value.isBlank = false then return ⟨id, value, description, sensitive, stated⟩
  else throw (.emptyField ("output." ++ id.text) "value")

/-- The output as a document: secrecy is told only of a secret. -/
def json (output : Output) : Json :=
  let body : Dictionary Json := [("value", output.value.json)]
  let body : Dictionary Json :=
    match output.description with
    | some text => body.insert "description" (.string text)
    | none => body
  .object (if output.sensitive then body.insert "sensitive" (.bool true) else body)

end Output
end StackSynth
