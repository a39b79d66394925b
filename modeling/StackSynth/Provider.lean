import StackSynth.ConstructId
import StackSynth.Expression

/-!
# Provider — a plugin that manages resources

A stack may hold several providers of one name, told apart by their aliases: the key of a provider
is `name` or `name.alias`.
-/

namespace StackSynth

structure Provider where
  name : ConstructId
  source : String
  version : Option String
  aliasName : Option ConstructId
  attributes : Attributes

namespace Provider

def make (name source : String) : Except Failure Provider := do
  let name ← ConstructId.ofText name
  if Text.isBlank source then throw (.emptyField ("provider." ++ name.text) "source")
  return ⟨name, source, none, none, []⟩

def withAlias (provider : Provider) (aliasName : String) : Except Failure Provider := do
  return { provider with aliasName := some (← ConstructId.ofText aliasName) }

def set (provider : Provider) (name : String) (value : Expression) : Provider :=
  { provider with attributes := provider.attributes.insert name value }

def key (provider : Provider) : String :=
  match provider.aliasName with
  | some aliasName => provider.name.text ++ "." ++ aliasName.text
  | none => provider.name.text

/-- The attributes, with the alias among them. -/
def json (provider : Provider) : Json :=
  .object <|
    match provider.aliasName with
    | some aliasName => provider.attributes.json.insert "alias" (.string aliasName.text)
    | none => provider.attributes.json

end Provider
end StackSynth
