import StackSynth.Asset
import StackSynth.Handle
import StackSynth.Output
import StackSynth.Packaging
import StackSynth.Provider

/-!
# Stack — constructs that are deployed together

A stack belongs to a directory and holds providers, resources, assets, outputs and module calls
in the order of their registration.

* `Stack.addProvider`, `addResource`, `addAsset`, `addOutput` and `addModule` register one
  construct or fail; of every kind, no two constructs of a stack go by the same name;
* an asset is packaged at its registration, below the directory of the stack, and earlier
  versions of it are removed.
-/

namespace StackSynth

structure Stack where
  name : ConstructId
  directory : Path
  packager : Packager
  providers : List Provider
  resources : List Resource
  assets : List Asset
  outputs : List Output
  modules : List ModuleCall

namespace Stack

/-- The directory of assets in the directory of a stack. -/
def assetsName : String := "assets"

/-- A stack with nothing in it. -/
def empty (name : ConstructId) (directory : Path) (packager : Packager) : Stack :=
  ⟨name, directory, packager, [], [], [], [], []⟩

/-! ## Look-up -/

def asset? (stack : Stack) (id : String) : Option Asset :=
  stack.assets.find? fun asset => asset.id.text == id

def resource? (stack : Stack) (type id : String) : Option Resource :=
  stack.resources.find? fun resource => resource.type.text == type && resource.id.text == id

/-! ## Registration -/

def addProvider (stack : Stack) (provider : Provider) : Except Failure Stack :=
  if stack.providers.any fun other => other.key == provider.key then
    .error (.duplicate .provider provider.key)
  else .ok { stack with providers := stack.providers ++ [provider] }

def addResource (stack : Stack) (resource : Resource) : Except Failure (Handle × Stack) := do
  resource.validate
  if (stack.resource? resource.type.text resource.id.text).isSome then
    throw (.duplicate .resource resource.address)
  return (resource.handle, { stack with resources := stack.resources ++ [resource] })

def addOutput (stack : Stack) (output : Output) : Except Failure Stack :=
  if stack.outputs.any fun other => other.id == output.id then
    .error (.duplicate .output output.id.text)
  else .ok { stack with outputs := stack.outputs ++ [output] }

def addModule (stack : Stack) (call : ModuleCall) : Except Failure (Handle × Stack) :=
  if stack.modules.any fun other => other.id == call.id then
    .error (.duplicate .module call.id.text)
  else .ok (call.handle, { stack with modules := stack.modules ++ [call] })

/-! ## Assets -/

/-- The directory in which the versions of an asset are staged. -/
def staging (stack : Stack) (id : ConstructId) : Path :=
  (stack.directory.childText assetsName).childText id.text

/-- The components of an artifact's path from the directory of the stack; one that is staged
elsewhere is named as if it were not. -/
def relative (stack : Stack) (id : ConstructId) (short : String) (artifact : Artifact) :
    List Component :=
  match stack.directory.below? artifact.staged with
  | some components => components
  | none =>
      let path := ((Path.ofString assetsName).childText id.text).childText short
      (path.childText artifact.fileName).components

/-- Packages a source and registers it.  That old versions cannot be removed is no failure. -/
def addAsset (stack : Stack) (id : String) (source : Path) (type : AssetType) :
    Action Failure (Asset × Stack) := do
  let id ← Action.ofExcept (ConstructId.ofText id)
  if (stack.asset? id.text).isSome then throw (.duplicate .asset id.text)
  let artifact ← stack.packager.package source type (stack.staging id)
  let short ← Action.ofExcept (shortOf artifact.hash)
  Action.attempt (stack.packager.prune (stack.staging id) short)
  let asset : Asset :=
    { id, type, source, hash := artifact.hash, fileName := artifact.fileName
      path := Path.slashed (stack.relative id short artifact), staged := artifact.staged }
  return (asset, { stack with assets := stack.assets ++ [asset] })

end Stack
end StackSynth
