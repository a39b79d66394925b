import StackSynth.App
import StackSynth.Plan
import StackSynth.Record

/-!
# Manifest — the list of what was written

The manifest of an output directory names every stack with its plan, its directory and its
assets.  All paths in it are relative: those of stacks to the output directory, those of assets
to the directory of the stack.

* `Manifest.ofApp` — the manifest of an app;
* `Manifest.json` — its document, with the fields of records in their own order;
* `Manifest.load` — the manifest of an output directory.
-/

namespace StackSynth

structure AssetRecord where
  id : String
  type : AssetType
  hash : ContentHash
  fileName : String
  path : String

structure StackRecord where
  name : String
  planPath : String
  directory : String
  assets : List AssetRecord

structure Manifest where
  version : String
  records : Dictionary StackRecord

/-! ## From an app -/

def AssetRecord.ofAsset (asset : Asset) : AssetRecord where
  id := asset.id.text
  type := asset.type
  hash := asset.hash
  fileName := asset.fileName
  path := asset.path

def StackRecord.ofStack (stack : Stack) : StackRecord where
  name := stack.name.text
  planPath := App.stacksName ++ "/" ++ stack.name.text ++ "/" ++ Plan.fileName
  directory := App.stacksName ++ "/" ++ stack.name.text
  assets := stack.assets.map AssetRecord.ofAsset

def Manifest.ofApp (app : App) : Manifest where
  version := release
  records := Dictionary.ofList (app.registered.map fun stack =>
    (stack.name.text, StackRecord.ofStack stack))

/-! ## Writing -/

def AssetRecord.json (asset : AssetRecord) : Json :=
  .object
    [ ("id", .string asset.id), ("type", .string asset.type.text),
      ("hash", .string asset.hash.text),
      ("fileName", .string asset.fileName), ("path", .string asset.path) ]

def StackRecord.json (stack : StackRecord) : Json :=
  .object
    [ ("name", .string stack.name), ("synthesizedStackPath", .string stack.planPath),
      ("workingDirectory", .string stack.directory),
      ("assets", .array (stack.assets.map AssetRecord.json)) ]

def Manifest.json (manifest : Manifest) : Json :=
  .object
    [ ("version", .string manifest.version),
      ("stacks", .object (manifest.records.mapValues StackRecord.json)) ]

/-! ## Reading -/

namespace Manifest

open Record (field optionalField needed)

/-- What has been read of a record. -/
structure Draft where
  id : Option String := none
  type : Option AssetType := none
  hash : Option ContentHash := none
  fileName : Option String := none
  path : Option String := none
  name : Option String := none
  planPath : Option String := none
  directory : Option String := none
  assets : List AssetRecord := []
  version : Option String := none
  records : Option (Dictionary StackRecord) := none

def readHash (d : Json.Outline) : Reading ContentHash := do
  return ContentHash.ofText (← Reading.text d)

def readType : Json.Outline → Reading AssetType :=
  Reading.variant AssetType.ofName? AssetType.names

def readAsset : Json.Outline → Reading AssetRecord :=
  Record.read
    { name := "AssetManifest"
      fields :=
        [ field "id" Reading.text fun (draft : Draft) id => { draft with id := some id },
          field "type" readType fun draft type => { draft with type := some type },
          field "hash" readHash fun draft hash => { draft with hash := some hash },
          field "fileName" Reading.text fun draft name => { draft with fileName := some name },
          field "path" Reading.text fun draft path => { draft with path := some path } ]
      others := none }
    {}
    fun draft => do
      return {
        id := ← needed "id" draft.id
        type := ← needed "type" draft.type
        hash := ← needed "hash" draft.hash
        fileName := ← needed "fileName" draft.fileName
        path := ← needed "path" draft.path }

def readStack : Json.Outline → Reading StackRecord :=
  Record.read
    { name := "StackManifest"
      fields :=
        [ field "name" Reading.text fun (draft : Draft) name => { draft with name := some name },
          field "synthesizedStackPath" Reading.text fun draft path =>
            { draft with planPath := some path },
          field "workingDirectory" Reading.text fun draft path =>
            { draft with directory := some path },
          optionalField "assets" (Reading.sequence readAsset) fun draft assets =>
            { draft with assets } ]
      others := none }
    {}
    fun draft => do
      return {
        name := ← needed "name" draft.name
        planPath := ← needed "synthesizedStackPath" draft.planPath
        directory := ← needed "workingDirectory" draft.directory
        assets := draft.assets }

def read : Json.Outline → Reading Manifest :=
  Record.read
    { name := "Manifest"
      fields :=
        [ field "version" Reading.text fun (draft : Draft) text =>
            { draft with version := some text },
          field "stacks" (Reading.dictionary readStack) fun draft records =>
            { draft with records := some records } ]
      others := none }
    {}
    fun draft => do
      return {
        version := ← needed "version" draft.version
        records := ← needed "stacks" draft.records }

/-- The name of the file of a manifest. -/
def fileName : String := "manifest.json"

/-- The manifest of a text.  Whatever does not fit is reported before what follows it. -/
def ofText (text : String) : Except Failure Manifest :=
  let (document, after) := Json.Outline.ofText text
  match (read document).run with
  | .ok (manifest, _) => if after.isEmpty then .ok manifest else .error (.document .malformed)
  | .error .malformed => .error (.document .malformed)
  | .error mismatch => .error (.document (.mismatch mismatch))

def load (fs : FileSystem) (outdir : Path) : Except Failure Manifest := do
  ofText (← (fs.readText (outdir.childText fileName)).mapError Failure.disk)

end Manifest
end StackSynth
