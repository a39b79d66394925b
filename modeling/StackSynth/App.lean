import StackSynth.Stack

/-!
# App — stacks with one output directory

An app makes stacks, each with a directory of its own below the output directory, and takes in
the finished ones, of which no two go by the same name.
-/

namespace StackSynth

/-- The release that plans and manifests are marked with. -/
def release : String := "0.1.0"

structure App where
  outdir : Path
  packager : Packager
  registered : List Stack

namespace App

/-- The output directory of an app that states none. -/
def standardOutdir : String := "cdktf.out"

/-- The directory of stacks in the output directory. -/
def stacksName : String := "stacks"

def empty (outdir : Path) (packager : Packager) : App :=
  ⟨outdir, packager, []⟩

def stack? (app : App) (name : String) : Option Stack :=
  app.registered.find? fun stack => stack.name.text == name

def stackDirectory (app : App) (name : ConstructId) : Path :=
  (app.outdir.childText stacksName).childText name.text

/-- A new stack, which is not yet part of the app. -/
def newStack (app : App) (name : String) : Except Failure Stack := do
  let name ← ConstructId.ofText name
  return Stack.empty name (app.stackDirectory name) app.packager

def addStack (app : App) (stack : Stack) : Except Failure App :=
  if (app.stack? stack.name.text).isSome then .error (.duplicate .stack stack.name.text)
  else if !stack.directory.sameName (app.stackDirectory stack.name) then
    .error (.invalidField ("stack." ++ stack.name.text) "scope" .foreignApp)
  else .ok { app with registered := app.registered ++ [stack] }

end App
end StackSynth
