import StackSynth.Manifest

/-!
# Synthesis — writing the plans of an app

Each stack has its plan written into its directory, and at last the manifest is written into the
output directory.  Every file appears as a whole or not at all.
-/

namespace StackSynth

/-- What is told about a stack whose plan was written. -/
structure StackReport where
  name : String
  planPath : Path
  resources : Nat
  assets : Nat
  outputs : Nat

structure Report where
  outdir : Path
  manifestPath : Path
  entries : List StackReport

namespace Stack

def planPath (stack : Stack) : Path :=
  stack.directory.childText Plan.fileName

def report (stack : Stack) : StackReport where
  name := stack.name.text
  planPath := stack.planPath
  resources := stack.resources.length
  assets := stack.assets.length
  outputs := stack.outputs.length

end Stack

namespace Report

def stack? (report : Report) (name : String) : Option StackReport :=
  report.entries.find? fun stack => stack.name == name

/-- The plan of a stack as it was written. -/
def plan? (fs : FileSystem) (report : Report) (name : String) : Except Failure (Option Plan) :=
  match report.stack? name with
  | none => .ok none
  | some stack => do return some (← Plan.load fs stack.planPath)

def stackJson (stack : StackReport) : Json :=
  .object
    [ ("assets", .ofNat stack.assets), ("name", .string stack.name),
      ("outputs", .ofNat stack.outputs), ("planPath", .string stack.planPath.display),
      ("resources", .ofNat stack.resources) ]

def json (report : Report) : Json :=
  .object
    [ ("manifestPath", .string report.manifestPath.display),
      ("outdir", .string report.outdir.display),
      ("stacks", .array (report.entries.map stackJson)) ]

end Report

namespace App

/-- The content of a file with a document. -/
def documentFile (document : Json) : Bytes :=
  Utf8.encode (document.pretty ++ "\n")

def manifestPath (app : App) : Path :=
  app.outdir.childText Manifest.fileName

def writeDocument (path : Path) (document : Json) : Action Failure Unit :=
  Action.mapError Failure.disk (FileSystem.writeAtomically path (documentFile document))

def writePlans : List Stack → Action Failure Unit
  | [] => pure ()
  | stack :: rest => do
      writeDocument stack.planPath (Plan.ofStack stack).document
      writePlans rest

def synthesize (app : App) : Action Failure Report := do
  writePlans app.registered
  writeDocument app.manifestPath (Manifest.ofApp app).json
  return ⟨app.outdir, app.manifestPath, app.registered.map Stack.report⟩

end App
end StackSynth
