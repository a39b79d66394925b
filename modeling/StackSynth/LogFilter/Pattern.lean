import StackSynth.Bytes
import StackSynth.Nesting
import StackSynth.Text.Alphanumeric

/-!
# Pattern — regular expressions for the values of fields

A pattern is only checked.  It is read from left to right, and what has been read is known by
its depth and by what is still open.

* `Pattern.Flags` — how characters are taken: without regard to case, as single octets, or with
  space and comments between them;
* `Pattern.readEscape` — what follows a backslash;
* `Pattern.readClass` — classes in brackets, with classes and operations on classes inside;
* `Pattern.isValid` — whole patterns.

Nothing is known about the cases and the kinds of the characters of Unicode.  So only octets can
be taken without regard to case; the classes of digits, of space and of words, and the borders of
words, are those of ASCII and need octets.  A pattern of octets may not match half a character.
-/

namespace StackSynth
namespace LogFilter
namespace Pattern

/-! ## Flags -/

structure Flags where
  caseless : Bool := false
  octets : Bool := false
  /-- Space and comments stand for nothing. -/
  spaced : Bool := false

namespace Flags

def names : List Char := ['i', 'm', 's', 'U', 'u', 'x', 'R']

def set (flags : Flags) (name : Char) (value : Bool) : Flags :=
  if name == 'i' then { flags with caseless := value }
  else if name == 'u' then { flags with octets := !value }
  else if name == 'x' then { flags with spaced := value }
  else flags

/-- Characters have cases that are not known. -/
def caseUnknown (flags : Flags) : Bool :=
  flags.caseless && !flags.octets

end Flags

/-- What follows space and comments at the front. -/
def dropSpace : (inComment : Bool) → List Char → List Char
  | _, [] => []
  | true, c :: cs => dropSpace (c != '\n') cs
  | false, c :: cs =>
      if Text.isSpace c then dropSpace false cs
      else if c == '#' then dropSpace true cs
      else c :: cs

def Flags.skip (flags : Flags) (cs : List Char) : List Char :=
  if flags.spaced then dropSpace false cs else cs

/-- The next character; of a comment, its first one. -/
def Flags.peek? (flags : Flags) (cs : List Char) : Option Char :=
  if flags.spaced then
    match cs.dropWhile Text.isSpace with
    | '#' :: rest => (rest.dropWhile Text.isSpace).head?.or cs.head?
    | c :: _ => some c
    | [] => cs.head?
  else cs.head?

/-- Flags up to the colon or the bracket that ends them: the flags, that mark, and what follows
it.  `seen` are the names so far, with the minus among them. -/
def readFlags (flags : Flags) (seen : List Char) : List Char → Option (Flags × Char × List Char)
  | [] => none
  | c :: cs =>
      if c == ':' || c == ')' then
        if seen.head? == some '-' || (seen.isEmpty && c == ')') then none else some (flags, c, cs)
      else if seen.contains c then none
      else if c == '-' then readFlags flags (c :: seen) cs
      else if Flags.names.contains c then
        readFlags (flags.set c !(seen.contains '-')) (c :: seen) cs
      else none

/-! ## Escapes -/

inductive Escape where
  | literal (c : Char)
  | octetClass
  /-- A place between characters. -/
  | place

/-- The number that hexadecimal digits spell after `value`. -/
def readHex (flags : Flags) : (count : Nat) → (value : Nat) → List Char → Option (Nat × List Char)
  | 0, value, cs => some (value, cs)
  | count + 1, value, cs =>
      match flags.skip cs with
      | [] => none
      | c :: rest => do readHex flags count (value * 16 + (← Bytes.hexValue? c)) rest

/-- A character by its number; two digits stand for an octet where octets are matched. -/
def readNumbered (flags : Flags) (count : Nat) (cs : List Char) :
    Option (Escape × List Char) := do
  let (value, rest) ← readHex flags count 0 cs
  if !decide value.isValidChar || (count == 2 && flags.octets && 0x7F < value) then none
  else return (.literal (Char.ofNat value), rest)

/-- The characters that letters stand for. -/
def letterEscape? : Char → Option Char
  | 'a' => some '\x07'
  | 'f' => some '\x0c'
  | 't' => some '\t'
  | 'n' => some '\n'
  | 'r' => some '\r'
  | 'v' => some '\x0b'
  | _ => none

/-- An escape after its backslash. -/
def readEscape (flags : Flags) : List Char → Option (Escape × List Char)
  | [] => none
  | c :: cs =>
      if c == 'x' then readNumbered flags 2 cs
      else if c == 'u' then readNumbered flags 4 cs
      else if c == 'U' then readNumbered flags 8 cs
      else if c == 'A' || c == 'z' then some (.place, cs)
      else if c == 'd' || c == 's' || c == 'w' then
        if flags.octets then some (.octetClass, cs) else none
      else if c == 'b' || c == 'B' || c == '<' || c == '>' then
        if flags.octets then some (.place, cs) else none
      else
        match letterEscape? c with
        | some plain => some (.literal plain, cs)
        | none => if c.isAlphanum || 0x7F < c.toNat then none else some (.literal c, cs)

/-! ## Classes -/

/-- What has been read of a class. -/
structure ClassState where
  /-- The depths of the items after the last operation. -/
  items : List Nat := []
  /-- The depth of what stands before the last operation. -/
  left : Option Nat := none
  /-- Nothing but dashes in front. -/
  fresh : Bool := true

def ClassState.depth (state : ClassState) : Nat :=
  match state.left with
  | none => Nesting.joined state.items
  | some depth => max depth (Nesting.joined state.items) + 1

def ClassState.push (state : ClassState) (depth : Nat) : ClassState :=
  { state with items := depth :: state.items, fresh := false }

/-- The character may be a member of a class. -/
def mayBelong (flags : Flags) (c : Char) : Bool :=
  !flags.caseUnknown && !(flags.octets && 0x7F < c.toNat)

/-- The beginning of a class after its bracket. -/
def openClass (flags : Flags) (cs : List Char) : Option (ClassState × List Char) :=
  match flags.skip cs with
  | '^' :: rest => if flags.octets then none else some ({}, rest)
  | rest => some ({}, rest)

/-- The names of classes between colons. -/
def classNames : List String :=
  ["alnum", "alpha", "ascii", "blank", "cntrl", "digit", "graph", "lower", "print", "punct",
    "space", "upper", "word", "xdigit"]

/-- A class between colons after its bracket: whether it is negated, and what follows it. -/
def readNamed? : List Char → Option (Bool × List Char)
  | ':' :: cs =>
      let (negated, cs) :=
        match cs with
        | '^' :: rest => (true, rest)
        | cs => (false, cs)
      match cs.dropWhile (· != ':') with
      | ':' :: ']' :: rest =>
          if classNames.contains (String.ofList (cs.takeWhile (· != ':'))) then
            some (negated, rest)
          else none
      | _ => none
  | _ => none

/-- A member: a character, or nothing for a class. -/
def readMember (flags : Flags) : List Char → Option (Option Char × List Char)
  | [] => none
  | c :: cs =>
      if c == '\\' then
        match readEscape flags cs with
        | some (.literal c, rest) => some (some c, rest)
        | some (.octetClass, rest) => some (none, rest)
        | _ => none
      else some (some c, cs)

/-- A member or a range; gives what follows it. -/
def readItem (flags : Flags) (cs : List Char) : Option (List Char) := do
  let (first, rest) ← readMember flags cs
  let rest := flags.skip rest
  let alone : Option (List Char) :=
    if first.all (mayBelong flags) then some rest else none
  match rest with
  | '-' :: more =>
      if flags.peek? more == some ']' || flags.peek? more == some '-' then alone
      else
        match first, ← readMember flags (flags.skip more) with
        | some low, (some high, rest) =>
            if low ≤ high && mayBelong flags low && mayBelong flags high then some rest else none
        | _, _ => none
  | _ => alone

inductive ClassStep where
  | closed (depth : Nat)
  | more (outer : List ClassState) (state : ClassState)

/-- The next item, operation or bracket of a class; `outer` are the classes around it. -/
def classStep (flags : Flags) (outer : List ClassState) (state : ClassState) (cs : List Char) :
    Option (ClassStep × List Char) :=
  let literal (c : Char) (fresh : Bool) (rest : List Char) :=
    if mayBelong flags c then some (.more outer { state.push 0 with fresh }, rest) else none
  let operation (rest : List Char) :=
    some (.more outer ⟨[], some state.depth, false⟩, rest)
  match flags.skip cs, state.fresh, state.items.isEmpty with
  | [], _, _ => none
  | '-' :: rest, true, _ => literal '-' true rest
  | ']' :: rest, true, true => literal ']' false rest
  | ']' :: rest, _, _ =>
      match outer with
      | [] => some (.closed (state.depth + 1), rest)
      | around :: outer => some (.more outer (around.push (state.depth + 1)), rest)
  | '[' :: rest, _, _ =>
      match readNamed? rest with
      | some (negated, rest) =>
          if flags.caseUnknown || (negated && flags.octets) then none
          else some (.more outer (state.push 0), rest)
      | none => do
          let (inner, rest) ← openClass flags rest
          return (.more (state :: outer) inner, rest)
  | '&' :: '&' :: rest, _, _ => operation rest
  | '-' :: '-' :: rest, _, _ => operation rest
  | '~' :: '~' :: rest, _, _ => operation rest
  | cs, _, _ => do return (.more outer (state.push 0), ← readItem flags cs)

/-- A class up to its closing bracket: its depth and what follows it. -/
def readClass (flags : Flags) (outer : List ClassState) (state : ClassState) (cs : List Char) :
    Option (Nat × List Char) :=
  match classStep flags outer state cs with
  | none => none
  | some (.closed depth, rest) => some (depth, rest)
  | some (.more outer state, rest) =>
      if rest.length < cs.length then readClass flags outer state rest else none
termination_by cs.length

/-! ## Patterns -/

/-- What stands before a group that is still open. -/
structure Around where
  flags : Flags
  parts : List Nat
  branches : List Nat

/-- What has been read of a pattern. -/
structure State where
  flags : Flags := {}
  /-- The depths of the parts of the innermost branch. -/
  parts : List Nat := []
  /-- The last part may be repeated. -/
  repeatable : Bool := false
  /-- The depths of the branches before it. -/
  branches : List Nat := []
  outer : List Around := []
  /-- The names of groups. -/
  names : List (List Char) := []

namespace State

def depth (state : State) : Nat :=
  Nesting.joined (Nesting.joined state.parts :: state.branches)

def push (state : State) (depth : Nat) : State :=
  { state with parts := depth :: state.parts, repeatable := true }

def pushLiteral (state : State) : Option State :=
  if state.flags.caseUnknown then none else some (state.push 0)

def openGroup (state : State) (flags : Flags) : State :=
  { state with
    flags, parts := [], repeatable := false, branches := []
    outer := ⟨state.flags, state.parts, state.branches⟩ :: state.outer }

def closeGroup (state : State) : Option State :=
  match state.outer with
  | [] => none
  | around :: outer =>
      some { state with
        flags := around.flags, parts := (state.depth + 1) :: around.parts, repeatable := true
        branches := around.branches, outer }

def branch (state : State) : State :=
  { state with
    parts := [], repeatable := false
    branches := Nesting.joined state.parts :: state.branches }

/-- A repetition of the last part; a question mark makes it as short as possible. -/
def repetition (state : State) (cs : List Char) : Option (State × List Char) :=
  match state.parts with
  | depth :: parts =>
      if state.repeatable then
        some ({ state with parts := (depth + 1) :: parts },
          match cs with
          | '?' :: rest => rest
          | cs => cs)
      else none
  | [] => none

/-- A group may have the name. -/
def mayName (state : State) : List Char → Bool
  | [] => false
  | c :: cs =>
      (c == '_' || Text.isAlphabetic c)
        && cs.all (fun c => ['_', '.', '[', ']'].contains c || Text.isAlphanumeric c)
        && !state.names.contains (c :: cs)

/-- A group with a name, after the mark before the name. -/
def namedGroup (state : State) (cs : List Char) : Option (State × List Char) :=
  let name := cs.takeWhile (· != '>')
  match cs.dropWhile (· != '>') with
  | _ :: rest =>
      if state.mayName name then
        some ({ state.openGroup state.flags with names := name :: state.names }, rest)
      else none
  | [] => none

/-- A group after its bracket, or flags for what follows in the group around them. -/
def group (state : State) (cs : List Char) : Option (State × List Char) :=
  match state.flags.skip cs with
  | '?' :: 'P' :: '<' :: rest => state.namedGroup rest
  | '?' :: '<' :: rest => state.namedGroup rest
  | '?' :: rest => do
      let (flags, mark, rest) ← readFlags state.flags [] rest
      if mark == ':' then return (state.openGroup flags, rest)
      else return ({ state with flags, parts := 0 :: state.parts, repeatable := false }, rest)
  | rest => some (state.openGroup state.flags, rest)

/-- An escape after its backslash. -/
def escape (state : State) (cs : List Char) : Option (State × List Char) := do
  match ← readEscape state.flags cs with
  | (.literal _, rest) => return (← state.pushLiteral, rest)
  | (_, rest) => return (state.push 0, rest)

def step (state : State) (c : Char) (cs : List Char) : Option (State × List Char) :=
  match c with
  | '(' => state.group cs
  | ')' => do return (← state.closeGroup, cs)
  | '|' => some (state.branch, cs)
  | '[' => do
      let (inner, rest) ← openClass state.flags cs
      let (depth, rest) ← readClass state.flags [] inner rest
      return (state.push depth, rest)
  | '?' => state.repetition cs
  | '*' => state.repetition cs
  | '+' => state.repetition cs
  | '\x7b' => none
  | '\\' => state.escape cs
  | '.' => if state.flags.octets then none else some (state.push 0, cs)
  | '^' => some (state.push 0, cs)
  | '$' => some (state.push 0, cs)
  | _ => do return (← state.pushLiteral, cs)

def read (state : State) (cs : List Char) : Option State :=
  match state.flags.skip cs with
  | [] => some state
  | c :: rest =>
      match state.step c rest with
      | none => none
      | some (next, rest) => if rest.length < cs.length then read next rest else none
termination_by cs.length

end State

/-- The text is a pattern. -/
def isValid (cs : List Char) : Bool :=
  match State.read {} cs with
  | none => false
  | some state => state.outer.isEmpty && state.depth ≤ Nesting.limit

end Pattern
end LogFilter
end StackSynth
