import StackSynth.Failure
import StackSynth.Record
import StackSynth.Toml.Parser
import StackSynth.Warning

/-!
# Configuration — where output goes and what is logged

The configuration is put together from layers, each of which replaces what it states in the ones
before it: the defaults, the file of the user, the `app` table of the project, and variables of
the environment.

* `Configuration.load` — the configuration, with warnings about the file of the user;
* `Configuration.projectLayer` — the `app` table of a stack file, if there is such a file;
* `Environment.configDirectory?` — where the file of the user is looked for.
-/

namespace StackSynth

/-- What one layer states. -/
structure Layer where
  outdir : Option Path := none
  log : Option String := none

structure Configuration where
  outdir : Path
  log : String

/-! ## Environment -/

/-- Variables and their values, which need not be text. -/
abbrev Environment := List (String × Bytes)

namespace Environment

/-- Variables whose values are text. -/
def ofTexts (texts : List (String × String)) : Environment :=
  texts.map fun entry => (entry.1, Utf8.encode entry.2)

instance : Coe (List (String × String)) Environment := ⟨ofTexts⟩

def get? (env : Environment) (name : String) : Option Bytes :=
  (env.find? fun entry => entry.1 == name).map (·.2)

/-- The value of a variable that is set to something. -/
def filled? (env : Environment) (name : String) : Option Bytes :=
  match env.get? name with
  | some value => if value.isEmpty then none else some value
  | none => none

def outdirName : String := "TERRASTACK_OUTDIR"
def logName : String := "TERRASTACK_LOG"
def configDirectoryName : String := "TERRASTACK_CONFIG_DIR"

/-- The directory for configuration of all programs. -/
def sharedDirectory? (env : Environment) : Option Path :=
  match env.get? "XDG_CONFIG_HOME" with
  | some value => if Path.isAbsolute ⟨value⟩ then some ⟨value⟩ else ofHome
  | none => ofHome
where
  ofHome : Option Path :=
    (env.filled? "HOME").map fun home => Path.childText ⟨home⟩ ".config"

/-- The directory that holds the file of the user. -/
def configDirectory? (env : Environment) : Option Path :=
  match env.filled? configDirectoryName with
  | some value => some ⟨value⟩
  | none => env.sharedDirectory?.map fun shared => shared.childText "terrastack"

/-- What the variables state.  A log filter that is no text is passed over. -/
def layer (env : Environment) : Layer where
  outdir := (env.filled? outdirName).map Path.mk
  log :=
    match (env.get? logName).bind Utf8.decode? with
    | some value => if Text.isBlank value then none else some value
    | none => none

end Environment

/-! ## Files -/

namespace Layer

/-- The `app` table of a file. -/
def record : Record Toml Layer where
  name := "AppSection"
  fields :=
    [ Record.optionalField "outdir" Reading.path fun layer outdir =>
        { layer with outdir := some outdir },
      Record.optionalField "log" Reading.text fun layer log => { layer with log := some log } ]
  others := none

def read (d : Toml) : Reading Layer :=
  record.read {} .ok d

/-- A file that holds an `app` table. -/
def fileRecord : Record Toml Layer where
  name := "ConfigFile"
  fields := [Record.optionalField "app" read fun _ layer => layer]
  others := none

end Layer

/-- Reads a whole file; its keys that no record knows become warnings. -/
def readToml (file : Path) (content : String) (read : Toml → Reading α) :
    Except Failure (α × List Warning) :=
  match Toml.parse? content with
  | none => .error (.configuration file .malformed)
  | some document =>
      match (read document).run with
      | .error mismatch => .error (.configuration file (.mismatch mismatch))
      | .ok (value, unknown) => .ok (value, Warning.ofKeys file content unknown)

/-- The `app` table of a file of the user. -/
def Layer.load (fs : FileSystem) (file : Path) : Except Failure (Layer × List Warning) := do
  let content ← (fs.readText file).mapError Failure.disk
  readToml file content (Layer.fileRecord.read {} .ok)

/-! ## Layers -/

namespace Configuration

def standard : Configuration :=
  ⟨Path.ofString "cdktf.out", "warn"⟩

/-- The configuration with what a layer states put in. -/
def apply (config : Configuration) (layer : Layer) : Configuration where
  outdir := layer.outdir.getD config.outdir
  log := layer.log.getD config.log

/-- The `app` table of a stack file; its other tables are of no concern here. -/
def projectLayer (fs : FileSystem) (file : Path) : Except Failure (Option Layer) := do
  if fs.isFile file then return some (← Layer.load fs file).1
  else return none

/-- What the file of the user states, if there is one. -/
def userLayer (fs : FileSystem) (env : Environment) : Except Failure (Layer × List Warning) :=
  match env.configDirectory? with
  | none => .ok ({}, [])
  | some directory =>
      let file := directory.childText "config.toml"
      if fs.isFile file then Layer.load fs file else .ok ({}, [])

def load (fs : FileSystem) (env : Environment) (project : Option Layer) :
    Except Failure (Configuration × List Warning) := do
  let (user, warnings) ← userLayer fs env
  let config := standard.apply user
  let config := config.apply (project.getD {})
  return (config.apply env.layer, warnings)

end Configuration
end StackSynth
