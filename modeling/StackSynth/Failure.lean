import StackSynth.ContentHash
import StackSynth.IgnoreFile
import StackSynth.Mismatch

/-!
# Failure — why a stack cannot be declared, packaged or written

One constructor for each cause, and `Failure.message` for the wording.  `Failure.cause?` is the
message of a failure that another one wraps.
-/

namespace StackSynth

/-- The rules that names have to follow. -/
inductive NamingRule where
  | notEmpty
  | startsWithLetter
  | plainCharacters
  | snakeCase
  deriving DecidableEq

def NamingRule.message : NamingRule → String
  | .notEmpty => "must not be empty"
  | .startsWithLetter => "must start with a letter or '_'"
  | .plainCharacters => "may only contain letters, digits, '_' and '-'"
  | .snakeCase => "resource types are lowercase snake_case"

/-- The kinds of named things of which there is one for each name. -/
inductive Kind where
  | stack
  | provider
  | resource
  | asset
  | output
  | module
  deriving DecidableEq

def Kind.text : Kind → String
  | .stack => "stack"
  | .provider => "provider"
  | .resource => "resource"
  | .asset => "asset"
  | .output => "output"
  | .module => "module"

/-- What is wrong with a field. -/
inductive FieldProblem where
  | empty
  | foreignApp
  deriving DecidableEq

def FieldProblem.message : FieldProblem → String
  | .empty => "must not be empty"
  | .foreignApp => "stack was created for a different app"

/-- Why a source cannot be packaged. -/
inductive PackagingProblem where
  | fault (fault : Fault)
  /-- A fault met on the way through a directory. -/
  | walking (path : Path) (fault : Fault)
  /-- A link to a directory that the walk is inside of. -/
  | loop (child ancestor : Path)
  | notDirectory (type : String)
  | notFile
  /-- The content is not as long as it was when it was listed. -/
  | changed
  | reported (text : String)

def PackagingProblem.message : PackagingProblem → String
  | .fault reason => reason.message
  | .walking path reason => "IO error for operation on " ++ path.display ++ ": " ++ reason.message
  | .loop child ancestor =>
      "File system loop found: " ++ child.display ++ " points to an ancestor " ++ ancestor.display
  | .notDirectory type => type ++ " assets must point at a directory"
  | .notFile => "file assets must point at a regular file"
  | .changed => "file changed while it was being hashed"
  | .reported text => text

/-- Why a configuration file cannot be used. -/
inductive ConfigurationProblem where
  | unreadable (fault : Fault)
  | malformed
  | mismatch (mismatch : Mismatch)

/-- Why a JSON file cannot be used. -/
inductive DocumentProblem where
  | malformed
  | mismatch (mismatch : Mismatch)

inductive Failure where
  | pathNotFound (path : Path)
  | packaging (path : Path) (problem : PackagingProblem)
  | invalidField (owner field : String) (problem : FieldProblem)
  | invalidName (name : String) (rule : NamingRule)
  | duplicate (kind : Kind) (name : String)
  | unresolved (reference : String)
  | configuration (file : Path) (problem : ConfigurationProblem)
  | ignoreFile (failure : IgnoreFailure)
  | disk (fault : Fault)
  | document (problem : DocumentProblem)
  /-- The short form of a hash would cut a character in two. -/
  | brokenHash (hash : ContentHash)

def ConfigurationProblem.message : ConfigurationProblem → String
  | .unreadable reason => reason.message
  | .malformed => "TOML parse error"
  | .mismatch reason => "TOML parse error: " ++ reason.message

def DocumentProblem.message : DocumentProblem → String
  | .malformed => "malformed document"
  | .mismatch reason => reason.message

namespace Failure

def message : Failure → String
  | .pathNotFound path => "path not found: " ++ path.display
  | .packaging path problem => "failed to package " ++ path.display ++ ": " ++ problem.message
  | .invalidField owner field problem =>
      "invalid field '" ++ field ++ "' on " ++ owner ++ ": " ++ problem.message
  | .invalidName name rule => "invalid identifier '" ++ name ++ "': " ++ rule.message
  | .duplicate kind name => "duplicate " ++ kind.text ++ " '" ++ name ++ "'"
  | .unresolved reference => "unresolved reference '" ++ reference ++ "'"
  | .configuration file problem =>
      "invalid configuration in " ++ file.display ++ ": " ++ problem.message
  | .ignoreFile failure => failure.message
  | .disk fault => "IO error: " ++ fault.message
  | .document problem => "JSON error: " ++ problem.message
  | .brokenHash hash => "no short form of hash '" ++ hash.text ++ "'"

/-- The message of the failure underneath. -/
def cause? : Failure → Option String
  | .disk fault => some fault.message
  | .ignoreFile (.unreadable fault) => some fault.message
  | .document problem => some problem.message
  | _ => none

/-- A required field that is blank. -/
def emptyField (owner field : String) : Failure :=
  .invalidField owner field .empty

end Failure
end StackSynth
