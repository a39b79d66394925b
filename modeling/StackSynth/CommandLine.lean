import StackSynth.CommandLine.Arguments
import StackSynth.Event
import StackSynth.LogFilter
import StackSynth.StackFile
import StackSynth.Synthesis

/-!
# CommandLine — a whole run of the program

`CommandLine.run` is a function of the arguments, the environment and the file system.  It tells
what is printed, the exit code, and what becomes of the file system.

* Results go to the output, as text or as events; warnings go to the errors, or are events too.
* A failure is the last thing that is told, with the failures beneath it.
-/

namespace StackSynth

/-- What a run has done so far. -/
structure Screen where
  fs : FileSystem
  output : String
  errors : String

/-- How a run ends. -/
structure Outcome where
  code : Nat
  output : String
  errors : String
  fs : FileSystem

/-- A message, and the messages beneath it. -/
structure Trouble where
  message : String
  causes : List String

namespace Trouble

def ofFailure (failure : Failure) : Trouble :=
  ⟨failure.message, failure.cause?.toList⟩

/-- The trouble as the cause of another one. -/
def beneath (message : String) (trouble : Trouble) : Trouble :=
  ⟨message, trouble.message :: trouble.causes⟩

/-- A text with something in front of its first line and something in front of the others. -/
def indented (first others text : String) : String :=
  first ++ Text.joinWith ("\n" ++ others) ((Text.fields '\n' text.toList).map String.ofList)

/-- A number at the right end of five places. -/
def numbered (n : Nat) : String :=
  let digits := toString n
  String.ofList (List.replicate (5 - digits.length) ' ') ++ digits ++ ": "

/-- Causes with their numbers. -/
def listed (n : Nat) : List String → String
  | [] => ""
  | cause :: rest => "\n" ++ indented (numbered n) "       " cause ++ listed (n + 1) rest

def text (trouble : Trouble) : String :=
  "Error: " ++ trouble.message ++
    (match trouble.causes with
      | [] => ""
      | [cause] => "\n\nCaused by:\n" ++ indented "    " "    " cause
      | causes => "\n\nCaused by:" ++ listed 0 causes) ++ "\n"

end Trouble

namespace CommandLine

/-- A part of a run. -/
abbrev Part := EStateM Trouble Screen

/-! ## Steps -/

def say (text : String) : Part Unit :=
  modify fun screen => { screen with output := screen.output ++ text }

def complain (text : String) : Part Unit :=
  modify fun screen => { screen with errors := screen.errors ++ text }

/-- A change of the file system. -/
def act (action : Action Failure α) : Part α := fun screen =>
  match action screen.fs with
  | .ok value fs => .ok value { screen with fs }
  | .error failure fs => .error (.ofFailure failure) { screen with fs }

def ask (query : FileSystem → Except Failure α) : Part α :=
  act (Action.query query)

/-- The same part, whose trouble is told beneath a message. -/
def under (message : String) (part : Part α) : Part α := fun screen =>
  match part screen with
  | .ok value screen => .ok value screen
  | .error trouble screen => .error (trouble.beneath message) screen

/-! ## Warnings -/

/-- Tells that the log filter is malformed; one asked for by an option never is. -/
def checkFilter (invocation : Invocation) (config : Configuration) : Part Unit :=
  if !invocation.verbose && !LogFilter.isValid config.log then
    complain ("warning: invalid " ++ Environment.logName ++ " filter '" ++ config.log
      ++ "', using '" ++ LogFilter.standard ++ "'\n")
  else pure ()

def warn (json : Bool) : List Warning → Part Unit
  | [] => pure ()
  | warning :: rest => do
      if json then say (Event.line (Event.ofWarning warning))
      else complain ("warning: " ++ warning.message ++ "\n")
      warn json rest

/-! ## Packaging -/

/-- The event that a source was hashed. -/
def hashEvent (source : Path) (type : AssetType) (hash : ContentHash) : Json :=
  .object
    [ ("command", .string "package"), ("event", .string "complete"), ("hash", .string hash.text),
      ("source", .string source.display), ("type", .string type.text) ]

/-- The event that a source was packaged. -/
def packageEvent (source : Path) (type : AssetType) (artifact : Artifact) : Json :=
  .object
    [ ("command", .string "package"), ("event", .string "complete"),
      ("fileName", .string artifact.fileName), ("hash", .string artifact.hash.text),
      ("source", .string source.display), ("stagedPath", .string artifact.staged.display),
      ("type", .string type.text) ]

def package (json : Bool) (config : Configuration) (source : Path) (type : AssetType)
    (staging : Option Path) (hashOnly : Bool) : Part Unit := do
  if hashOnly then
    let hash ← ask fun fs => Packaging.hash fs source type
    say (if json then Event.line (hashEvent source type hash) else hash.text ++ "\n")
  else
    let staging := staging.getD (config.outdir.childText Stack.assetsName)
    let artifact ← act (Packaging.package source type staging)
    say <|
      if json then Event.line (packageEvent source type artifact)
      else artifact.fileName ++ "  " ++ artifact.hash.text ++ "\nstaged at "
        ++ artifact.staged.display ++ "\n"

/-! ## Synthesis -/

def startEvent (file : StackFile) (config : Configuration) : Json :=
  .object
    [ ("command", .string "synth"), ("event", .string "start"),
      ("outdir", .string config.outdir.display), ("stack", .string file.name) ]

def completeEvent (report : Report) : Json :=
  .object [("command", .string "synth"), ("data", report.json), ("event", .string "complete")]

def stackText (stack : StackReport) : String :=
  stack.name ++ ": " ++ toString stack.resources ++ " resource(s), " ++ toString stack.assets
    ++ " asset(s), " ++ toString stack.outputs ++ " output(s)\n  plan     "
    ++ stack.planPath.display ++ "\n"

def reportText (report : Report) : String :=
  Text.joinWith "" (report.entries.map stackText) ++ "manifest   " ++ report.manifestPath.display
    ++ "\n"

def synthesize (json : Bool) (config : Configuration) (file : StackFile) : Part Unit := do
  if json then say (Event.line (startEvent file config))
  let app := App.empty config.outdir .standard
  let stack ← under ("failed to build stack '" ++ file.name ++ "'") (act (file.build app))
  let app ← act (Action.ofExcept (app.addStack stack))
  let report ← act app.synthesize
  say (if json then Event.line (completeEvent report) else reportText report)

/-! ## Runs -/

def invoke (env : Environment) (invocation : Invocation) : Part Unit := do
  match invocation.command with
  | .package source type staging hashOnly =>
      let project ← ask fun fs =>
        Configuration.projectLayer fs (Path.ofString Arguments.standardFile)
      let (config, warnings) ← ask fun fs => Configuration.load fs env project
      checkFilter invocation config
      warn invocation.json warnings
      package invocation.json config source type staging hashOnly
  | .synthesize path outdir =>
      let (file, warnings) ← ask fun fs => StackFile.load fs path
      let (config, userWarnings) ← ask fun fs => Configuration.load fs env (some file.app)
      let config := { config with outdir := outdir.getD config.outdir }
      checkFilter invocation config
      warn invocation.json (warnings ++ userWarnings)
      synthesize invocation.json config file

def versionText : String :=
  "terrastack " ++ release ++ "\n"

def helpText : String :=
  "Usage: terrastack [OPTIONS] <COMMAND>\n\nCommands:\n"
    ++ "  package  Hash and stage a single asset\n"
    ++ "  synth    Build the stack declared in a stack file and write its plan\n"

def run (arguments : List String) (env : Environment) (fs : FileSystem) : Outcome :=
  match Arguments.parse arguments with
  | .version => ⟨0, versionText, "", fs⟩
  | .help => ⟨0, helpText, "", fs⟩
  | .misuse => ⟨2, "", helpText, fs⟩
  | .run invocation =>
      match invoke env invocation ⟨fs, "", ""⟩ with
      | .ok _ screen => ⟨0, screen.output, screen.errors, screen.fs⟩
      | .error trouble screen =>
          ⟨1, screen.output, screen.errors ++ trouble.text, screen.fs⟩

end CommandLine
end StackSynth
