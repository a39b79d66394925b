import StackSynth.AssetType
import StackSynth.Path

/-!
# Arguments — what the user asks for

A command line names one of two commands, with options before and after its name.

* An option has a long name behind two dashes, and perhaps a letter behind one dash; letters may
  share a dash.  A value follows as the next argument, behind an equals sign, or right behind a
  letter.  An option other than the one for verbosity is given at most once.
* Two dashes alone end the options.
* In place of a command, `help` shows how to use all of them or the one named after it.

`Arguments.parse` gives the request, or `misuse`; what comes first decides.
-/

namespace StackSynth

/-- What to do. -/
inductive Command where
  | package (source : Path) (type : AssetType) (staging : Option Path) (hashOnly : Bool)
  | synthesize (file : Path) (outdir : Option Path)

/-- A command and how to talk about it. -/
structure Invocation where
  json : Bool
  verbose : Bool
  command : Command

inductive Request where
  | run (invocation : Invocation)
  | version
  | help
  | misuse

namespace Arguments

/-! ## Options -/

inductive Role where
  | json
  | verbose
  | type
  | staging
  | hashOnly
  | file
  | outdir
  | help
  | version
  deriving DecidableEq

structure Switch where
  role : Role
  long : String
  letter : Option Char
  takesValue : Bool

/-- Where an argument stands: in front of the name of the command, or behind it. -/
inductive Scope where
  | front
  | package
  | synthesize
  deriving DecidableEq

def sharedSwitches : List Switch :=
  [ ⟨.json, "json", none, false⟩, ⟨.verbose, "verbose", some 'v', false⟩,
    ⟨.help, "help", some 'h', false⟩ ]

def Scope.switches : Scope → List Switch
  | .front => ⟨.version, "version", some 'V', false⟩ :: sharedSwitches
  | .package =>
      [⟨.type, "type", some 't', true⟩, ⟨.staging, "staging", none, true⟩,
        ⟨.hashOnly, "hash-only", none, false⟩] ++ sharedSwitches
  | .synthesize =>
      [⟨.file, "file", some 'f', true⟩, ⟨.outdir, "outdir", some 'o', true⟩] ++ sharedSwitches

/-! ## What has been read -/

structure State where
  scope : Scope := .front
  json : Bool := false
  verbose : Bool := false
  /-- The options that were given in this scope. -/
  given : List Role := []
  source : Option Path := none
  type : Option AssetType := none
  staging : Option Path := none
  hashOnly : Bool := false
  file : Option Path := none
  outdir : Option Path := none

/-- The state, or a request that is made before the end. -/
abbrev Step := Except Request State

/-- The state in which an option was given. -/
def State.give (state : State) (role : Role) : Step :=
  if role = .verbose then .ok state
  else if state.given.contains role then .error .misuse
  else .ok { state with given := role :: state.given }

/-- A path, which is not empty. -/
def readPath (text : String) : Except Request Path :=
  if text.isEmpty then .error .misuse else .ok (Path.ofString text)

def readType (text : String) : Except Request AssetType :=
  match AssetType.ofText? text with
  | some type => .ok type
  | none => .error .misuse

/-- An option without a value. -/
def State.flag (state : State) (role : Role) : Step := do
  let state ← state.give role
  match role with
  | .json => return { state with json := true }
  | .verbose => return { state with verbose := true }
  | .hashOnly => return { state with hashOnly := true }
  | .version => throw .version
  | .help => throw .help
  | _ => throw .misuse

/-- An option with a value. -/
def State.value (state : State) (role : Role) (text : String) : Step := do
  let state ← state.give role
  match role with
  | .type => return { state with type := some (← readType text) }
  | .staging => return { state with staging := some (← readPath text) }
  | .file => return { state with file := some (← readPath text) }
  | .outdir => return { state with outdir := some (← readPath text) }
  | _ => throw .misuse

/-- An argument that is no option: the name of the command, or the source to package. -/
def State.plain (state : State) (text : String) : Step :=
  match state.scope with
  | .front =>
      if text = "package" then .ok { state with scope := .package, given := [] }
      else if text = "synth" then .ok { state with scope := .synthesize, given := [] }
      else .error .misuse
  | .package =>
      match state.source with
      | some _ => .error .misuse
      | none => do return { state with source := some (← readPath text) }
  | .synthesize => .error .misuse

/-! ## Reading -/

/-- An argument that may be a value or a name: no dash in front, or nothing but a dash. -/
def isPlain (arg : List Char) : Bool :=
  arg.head? != some '-' || arg == ['-']

/-- The value that the next argument is. -/
def nextValue (state : State) (role : Role) : List (List Char) → Except Request (State × Bool)
  | [] => .error .misuse
  | value :: _ =>
      if isPlain value then do return (← state.value role (String.ofList value), true)
      else .error .misuse

/-- What stands before and behind an equals sign. -/
def splitEquals : List Char → List Char × Option (List Char)
  | [] => ([], none)
  | '=' :: cs => ([], some cs)
  | c :: cs => (c :: (splitEquals cs).1, (splitEquals cs).2)

/-- An option by its long name; tells whether the next argument was its value. -/
def readLong (state : State) (text : List Char) (rest : List (List Char)) :
    Except Request (State × Bool) :=
  let (name, value) := splitEquals text
  match state.scope.switches.find? fun switch => switch.long == String.ofList name with
  | none => .error .misuse
  | some switch =>
      match switch.takesValue, value with
      | true, some value => do return (← state.value switch.role (String.ofList value), false)
      | true, none => nextValue state switch.role rest
      | false, some _ => .error .misuse
      | false, none => do return (← state.flag switch.role, false)

/-- The value right behind a letter; an equals sign in front does not belong to it. -/
def attached : List Char → List Char
  | '=' :: cs => cs
  | cs => cs

/-- Options by their letters. -/
def readLetters (state : State) (rest : List (List Char)) :
    List Char → Except Request (State × Bool)
  | [] => .ok (state, false)
  | c :: cs =>
      match state.scope.switches.find? fun switch => switch.letter == some c with
      | none => .error .misuse
      | some switch =>
          if switch.takesValue then
            if cs.isEmpty then nextValue state switch.role rest
            else do return (← state.value switch.role (String.ofList (attached cs)), false)
          else do
            readLetters (← state.flag switch.role) rest cs

/-- Arguments behind two dashes; no command is named there. -/
def readPlain (state : State) : List (List Char) → Step
  | [] => .ok state
  | arg :: rest =>
      if state.scope = .front then .error .misuse
      else do readPlain (← state.plain (String.ofList arg)) rest

/-- What `help` asks for with the arguments after it: nothing, or the name of one command. -/
def helpRequest : List (List Char) → Request
  | [] => .help
  | [name] =>
      if ["package", "synth", "help"].contains (String.ofList name) then .help else .misuse
  | _ => .misuse

/-- All arguments; `skip` tells that the first one was a value. -/
def read (state : State) (skip : Bool) : List (List Char) → Step
  | [] => .ok state
  | arg :: rest =>
      if skip then read state false rest
      else
        match arg with
        | ['-', '-'] => readPlain state rest
        | '-' :: '-' :: text => do
            let (state, skip) ← readLong state text rest
            read state skip rest
        | '-' :: c :: cs => do
            let (state, skip) ← readLetters state rest (c :: cs)
            read state skip rest
        | text =>
            if state.scope = .front && text == "help".toList then .error (helpRequest rest)
            else do read (← state.plain (String.ofList text)) false rest

/-! ## The request -/

/-- The stack file that is read if none is named. -/
def standardFile : String := "terrastack.toml"

def State.request (state : State) : Request :=
  match state.scope, state.source with
  | .package, some source =>
      .run ⟨state.json, state.verbose,
        .package source (state.type.getD .standard) state.staging state.hashOnly⟩
  | .synthesize, _ =>
      .run ⟨state.json, state.verbose,
        .synthesize (state.file.getD (Path.ofString standardFile)) state.outdir⟩
  | _, _ => .misuse

def parse (arguments : List String) : Request :=
  match read {} false (arguments.map String.toList) with
  | .ok state => state.request
  | .error request => request

end Arguments
end StackSynth
