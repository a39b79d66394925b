import StackSynth.CommandLine
import StackSynth.Disk

/-!
# Main — the program

The disk is read, `CommandLine.run` tells what happens, what it changed is carried out, and its
texts are printed.
-/

namespace StackSynth

/-- The variables that a run looks at. -/
def variableNames : List String :=
  ["HOME", "XDG_CONFIG_HOME", Environment.outdirName, Environment.logName,
    Environment.configDirectoryName]

def readEnvironment : IO Environment :=
  variableNames.filterMapM fun name => do
    return (← IO.getEnv name).map fun value => (name, Utf8.encode value)

/-- What an argument may name: itself, and what is behind an equals sign. -/
def named (argument : String) : List String :=
  let value := (argument.toList.dropWhile (· != '=')).drop 1
  [argument, String.ofList value].filter fun text => !text.isEmpty

/-- The places that a run can concern besides the current directory. -/
def places (arguments : List String) (env : Environment) : List String :=
  arguments.flatMap named ++ (env.filled? Environment.outdirName).toList.map Utf8.display
    ++ env.configDirectory?.toList.map Path.display

end StackSynth

open StackSynth in
def main (arguments : List String) : IO UInt32 := do
  let env ← readEnvironment
  let fs ← Disk.read (places arguments env)
  let outcome := CommandLine.run arguments env fs
  Disk.carryOut (Changes.between fs outcome.fs)
  (← IO.getStdout).putStr outcome.output
  (← IO.getStderr).putStr outcome.errors
  return UInt32.ofNat outcome.code
