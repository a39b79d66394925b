import StackSynth.Path

/-!
# Fault — why the operating system refuses

One constructor for each cause, and one function for the wording.
-/

namespace StackSynth

inductive Fault where
  | notFound
  | permissionDenied
  | busy
  | alreadyThere
  | notDirectory
  | isDirectory
  | invalidArgument
  | nameTooLong
  | notEmpty
  | tooManyLinks
  /-- A zero octet, which no name can hold. -/
  | zeroInPath
  /-- Content that is no text. -/
  | notText
  /-- A path that names no place inside a directory. -/
  | noParent (path : Path)
  deriving DecidableEq

def Fault.message : Fault → String
  | .notFound => "No such file or directory (os error 2)"
  | .permissionDenied => "Permission denied (os error 13)"
  | .busy => "Device or resource busy (os error 16)"
  | .alreadyThere => "File exists (os error 17)"
  | .notDirectory => "Not a directory (os error 20)"
  | .isDirectory => "Is a directory (os error 21)"
  | .invalidArgument => "Invalid argument (os error 22)"
  | .nameTooLong => "File name too long (os error 36)"
  | .notEmpty => "Directory not empty (os error 39)"
  | .tooManyLinks => "Too many levels of symbolic links (os error 40)"
  | .zeroInPath => "file name contained an unexpected NUL byte"
  | .notText => "stream did not contain valid UTF-8"
  | .noParent path => path.display ++ " has no parent directory"

end StackSynth
