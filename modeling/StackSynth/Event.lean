import StackSynth.Json.Printer
import StackSynth.Warning

/-!
# Event — messages for programs

An event is a document on a line of its own.  A line end inside of a string is written as an
escape, so that the events of a stream can be told apart.
-/

namespace StackSynth
namespace Event

/-- The line of an event. -/
def line (event : Json) : String :=
  event.compact ++ "\n"

/-- The number of a line, or `null`. -/
def lineNumber : Option Nat → Json
  | some line => .ofNat line
  | none => .null

/-- The event of a warning. -/
def ofWarning (warning : Warning) : Json :=
  .object
    [ ("event", .string "warning"), ("file", .string warning.file.display),
      ("key", .string warning.key), ("line", lineNumber warning.line),
      ("message", .string warning.message), ("suggestion", .ofOption warning.suggestion) ]

end Event
end StackSynth
