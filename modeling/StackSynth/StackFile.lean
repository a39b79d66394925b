import StackSynth.App
import StackSynth.Aws
import StackSynth.Configuration
import StackSynth.Placeholder
import StackSynth.Toml.Value

/-!
# StackFile — a stack declared in a file

A stack file declares one stack: its name, and its providers, assets, resources, outputs and
module calls.  Paths of assets are seen from the directory of the file.

* `StackFile.ofText` and `StackFile.load` read a file, with warnings about unknown keys;
* `StackFile.build` makes the stack: providers first, then assets, resources, module calls and
  outputs, so that everything but a provider may refer to the assets.
-/

namespace StackSynth

structure ProviderDecl where
  name : String
  source : Option String
  version : Option String
  aliasName : Option String
  attributes : Dictionary Toml

structure AssetDecl where
  id : String
  path : Path
  type : AssetType

structure ResourceDecl where
  type : String
  id : String
  attributes : Dictionary Toml

structure OutputDecl where
  id : String
  value : Toml
  description : Option String
  sensitive : Bool

structure ModuleDecl where
  id : String
  source : String
  version : Option String
  inputs : Dictionary Toml

structure StackFile where
  app : Layer
  name : String
  providers : List ProviderDecl
  assets : List AssetDecl
  resources : List ResourceDecl
  outputs : List OutputDecl
  modules : List ModuleDecl
  /-- The directory from which the paths of assets are seen. -/
  base : Path

/-! ## Reading -/

/-- What has been read of a declaration. -/
structure Draft where
  name : Option String := none
  id : Option String := none
  type : Option String := none
  source : Option String := none
  version : Option String := none
  aliasName : Option String := none
  description : Option String := none
  path : Option Path := none
  assetType : AssetType := .standard
  value : Option Toml := none
  sensitive : Bool := false
  attributes : Dictionary Toml := []

namespace Draft

open Record (field optionalField needed)

def nameField : Field Toml Draft :=
  field "name" Reading.text fun draft name => { draft with name := some name }

def idField : Field Toml Draft :=
  field "id" Reading.text fun draft id => { draft with id := some id }

def typeField : Field Toml Draft :=
  field "type" Reading.text fun draft type => { draft with type := some type }

def sourceField : Field Toml Draft :=
  field "source" Reading.text fun draft source => { draft with source := some source }

def versionField : Field Toml Draft :=
  field "version" Reading.text fun draft version => { draft with version := some version }

def aliasField : Field Toml Draft :=
  field "alias" Reading.text fun draft aliasName => { draft with aliasName := some aliasName }

def descriptionField : Field Toml Draft :=
  field "description" Reading.text fun draft text => { draft with description := some text }

def pathField : Field Toml Draft :=
  field "path" Reading.path fun draft path => { draft with path := some path }

def assetTypeField : Field Toml Draft :=
  optionalField "type" (Reading.variant AssetType.ofName? AssetType.names) fun draft type =>
    { draft with assetType := type }

def valueField : Field Toml Draft :=
  field "value" Reading.value fun draft value => { draft with value := some value }

def sensitiveField : Field Toml Draft :=
  optionalField "sensitive" Reading.bool fun draft value => { draft with sensitive := value }

def inputsField : Field Toml Draft :=
  optionalField "inputs" (Reading.dictionary Reading.value) fun draft inputs =>
    { draft with attributes := inputs }

/-- A key that is no field is an attribute. -/
def takeAttribute (key : String) (value : Toml) (draft : Draft) : Draft :=
  { draft with attributes := draft.attributes.insert key value }

end Draft

open Record (needed)

def ProviderDecl.read : Toml → Reading ProviderDecl :=
  Record.read
    { name := "ProviderDecl"
      fields := [Draft.nameField, Draft.sourceField, Draft.versionField, Draft.aliasField]
      others := some Draft.takeAttribute }
    {}
    fun draft => do
      return {
        name := ← needed "name" draft.name
        source := draft.source
        version := draft.version
        aliasName := draft.aliasName
        attributes := ← Toml.plainEntries true draft.attributes }

def AssetDecl.read : Toml → Reading AssetDecl :=
  Record.read
    { name := "AssetDecl"
      fields := [Draft.idField, Draft.pathField, Draft.assetTypeField]
      others := none }
    {}
    fun draft => do
      return {
        id := ← needed "id" draft.id
        path := ← needed "path" draft.path
        type := draft.assetType }

def ResourceDecl.read : Toml → Reading ResourceDecl :=
  Record.read
    { name := "ResourceDecl"
      fields := [Draft.typeField, Draft.idField]
      others := some Draft.takeAttribute }
    {}
    fun draft => do
      return {
        type := ← needed "type" draft.type
        id := ← needed "id" draft.id
        attributes := ← Toml.plainEntries true draft.attributes }

def OutputDecl.read : Toml → Reading OutputDecl :=
  Record.read
    { name := "OutputDecl"
      fields := [Draft.idField, Draft.valueField, Draft.descriptionField, Draft.sensitiveField]
      others := none }
    {}
    fun draft => do
      return {
        id := ← needed "id" draft.id
        value := ← needed "value" draft.value
        description := draft.description
        sensitive := draft.sensitive }

def ModuleDecl.read : Toml → Reading ModuleDecl :=
  Record.read
    { name := "ModuleDecl"
      fields := [Draft.idField, Draft.sourceField, Draft.versionField, Draft.inputsField]
      others := none }
    {}
    fun draft => do
      return {
        id := ← needed "id" draft.id
        source := ← needed "source" draft.source
        version := draft.version
        inputs := draft.attributes }

namespace StackFile

/-- The name in the `stack` table. -/
def readName : Toml → Reading String :=
  Record.read { name := "StackSection", fields := [Draft.nameField], others := none } {}
    fun draft => needed "name" draft.name

/-- A file in which nothing is declared. -/
def blank (base : Path) : StackFile :=
  ⟨{}, "", [], [], [], [], [], base⟩

/-- The tables of a file; the name of the stack is kept apart until it is known. -/
def record : Record Toml (Option String × StackFile) where
  name := "StackFile"
  fields :=
    [ Record.optionalField "app" Layer.read fun draft app =>
        (draft.1, { draft.2 with app }),
      Record.field "stack" readName fun draft name => (some name, draft.2),
      Record.optionalField "providers" (Reading.sequence ProviderDecl.read) fun draft providers =>
        (draft.1, { draft.2 with providers }),
      Record.optionalField "assets" (Reading.sequence AssetDecl.read) fun draft assets =>
        (draft.1, { draft.2 with assets }),
      Record.optionalField "resources" (Reading.sequence ResourceDecl.read) fun draft resources =>
        (draft.1, { draft.2 with resources }),
      Record.optionalField "outputs" (Reading.sequence OutputDecl.read) fun draft outputs =>
        (draft.1, { draft.2 with outputs }),
      Record.optionalField "modules" (Reading.sequence ModuleDecl.read) fun draft modules =>
        (draft.1, { draft.2 with modules }) ]
  others := none

def read (base : Path) : Toml → Reading StackFile :=
  record.read (none, blank base) fun draft => do
    return { draft.2 with name := ← needed "stack" draft.1 }

/-- The current directory. -/
def here : Path :=
  Path.ofString "."

/-- Reads the text of a file; `file` is what messages call it. -/
def ofText (file : Path) (content : String) (base : Path) :
    Except Failure (StackFile × List Warning) :=
  readToml file content (read base)

/-- The directory of a file. -/
def baseOf (file : Path) : Path :=
  match file.parent? with
  | some above => if above.isEmpty then here else above
  | none => here

def load (fs : FileSystem) (file : Path) : Except Failure (StackFile × List Warning) :=
  match fs.readText file with
  | .error fault => .error (.configuration file (.unreadable fault))
  | .ok content => ofText file content (baseOf file)

/-! ## Building -/

/-- Values with their references to assets resolved. -/
def expression (assets : List Asset) (value : Toml) : Except Failure Expression := do
  return .literal (← Placeholder.resolveJson assets value.json)

/-- The same for all attributes of a declaration. -/
def expressions (assets : List Asset) :
    Dictionary Toml → Except Failure (List (String × Expression))
  | [] => .ok []
  | (key, value) :: rest => do
      return (key, ← expression assets value) :: (← expressions assets rest)

/-- The source of a provider that states none. -/
def standardSource (name : String) : String :=
  "hashicorp/" ++ name

def provider (stack : Stack) (decl : ProviderDecl) : Except Failure Stack := do
  let made ← Provider.make decl.name (decl.source.getD (standardSource decl.name))
  let made := { made with version := decl.version }
  let made ←
    match decl.aliasName with
    | some aliasName => made.withAlias aliasName
    | none => pure made
  let attributes ← expressions stack.assets decl.attributes
  stack.addProvider (attributes.foldl (fun made (name, value) => made.set name value) made)

def resource (stack : Stack) (decl : ResourceDecl) : Except Failure Stack := do
  let made ← Resource.make decl.type decl.id
  let attributes ← expressions stack.assets decl.attributes
  let (_, stack) ←
    stack.addResource (attributes.foldl (fun made (name, value) => made.set name value) made)
  return stack

def moduleCall (stack : Stack) (decl : ModuleDecl) : Except Failure Stack := do
  let made ← ModuleCall.make decl.id decl.source
  let made := { made with version := decl.version }
  let inputs ← expressions stack.assets decl.inputs
  let (_, stack) ←
    stack.addModule (inputs.foldl (fun made (name, value) => made.set name value) made)
  return stack

def output (stack : Stack) (decl : OutputDecl) : Except Failure Stack := do
  let value ← expression stack.assets decl.value
  stack.addOutput (← Output.make decl.id value decl.description decl.sensitive)

def asset (base : Path) (stack : Stack) (decl : AssetDecl) : Action Failure Stack := do
  let (_, stack) ← stack.addAsset decl.id (base / decl.path) decl.type
  return stack

/-- Makes the stack of an app that a file declares. -/
def build (file : StackFile) (app : App) : Action Failure Stack := do
  let stack ← Action.ofExcept do file.providers.foldlM provider (← app.newStack file.name)
  let stack ← file.assets.foldlM (asset file.base) stack
  Action.ofExcept do
    let stack ← file.resources.foldlM resource stack
    let stack ← file.modules.foldlM moduleCall stack
    file.outputs.foldlM output stack

end StackFile
end StackSynth
