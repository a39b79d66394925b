import StackSynth.Glob

/-!
# Parser — globs from their spelling

`Glob.parse` reads a pattern from left to right.

* `*` and `?` are wildcards inside a name; `**` between slashes, or at either end next to a
  slash, stands for directories, and elsewhere for two `*`.
* `[…]` is a class, negated by `!` or `^` in front; `]` in front of all others is a member.  A
  class that is never closed makes its bracket and all later ones literal.
* `{…,…}` is a choice, and choices nest; a comma outside of them is literal.
* A backslash makes the next character literal.
-/

namespace StackSynth
namespace Glob

/-- Why a spelling is no pattern. -/
inductive Problem where
  | reversedRange (low high : Char)
  | unclosedChoice
  | unopenedChoice
  | danglingEscape
  deriving DecidableEq

def Problem.message : Problem → String
  | .reversedRange low high =>
      "invalid range; '" ++ low.toString ++ "' > '" ++ high.toString ++ "'"
  | .unclosedChoice =>
      "unclosed alternate group; missing '\x7d' (maybe escape '\x7b' with '[\x7b]'?)"
  | .unopenedChoice =>
      "unopened alternate group; missing '\x7b' (maybe escape '\x7d' with '[\x7d]'?)"
  | .danglingEscape => "dangling '\\'"

/-! ## Classes -/

/-- The ranges of a class so far, the last one first; `waiting` says that a `-` asks for the
high end of the last range. -/
structure ClassState where
  ranges : List (Char × Char)
  waiting : Bool

/-- A class: its ranges and the count of characters up to and with its closing bracket. -/
inductive ClassReading where
  | closed (ranges : List (Char × Char)) (used : Nat)
  | unclosed
  | reversed (low high : Char)

/-- A member of a class: the high end of a range that waits for one, or a range of its own. -/
def ClassState.add (state : ClassState) (c : Char) : Except Problem ClassState :=
  match state.waiting, state.ranges with
  | true, (low, _) :: earlier =>
      if c < low then .error (.reversedRange low c)
      else .ok ⟨(low, c) :: earlier, false⟩
  | _, ranges => .ok ⟨(c, c) :: ranges, false⟩

/-- The ranges of a class in order; a `-` before the closing bracket is a member. -/
def ClassState.finish (state : ClassState) : List (Char × Char) :=
  (if state.waiting then ('-', '-') :: state.ranges else state.ranges).reverse

/-- Reads members up to the closing bracket; `first` is set in front of the first member, where
a bracket and a dash are members. -/
def readMembers (state : ClassState) (first : Bool) (used : Nat) : List Char → ClassReading
  | [] => .unclosed
  | c :: cs =>
      if c == ']' && !first then .closed state.finish (used + 1)
      else if c == '-' && !first && !state.waiting then
        readMembers { state with waiting := true } false (used + 1) cs
      else
        match state.add c with
        | .ok next => readMembers next false (used + 1) cs
        | .error (.reversedRange low high) => .reversed low high
        | .error _ => .unclosed

/-- A class after its opening bracket, with its negation. -/
def readClass (cs : List Char) : Bool × ClassReading :=
  match cs with
  | c :: rest =>
      if c == '!' || c == '^' then (true, readMembers ⟨[], false⟩ true 1 rest)
      else (false, readMembers ⟨[], false⟩ true 0 (c :: rest))
  | [] => (false, .unclosed)

/-! ## Patterns -/

/-- A choice that is still open: the tokens before it and its branches so far, both with the
last one first. -/
structure OpenChoice where
  before : List Token
  branches : List (List Token)

/-- What has been read: the tokens of the innermost branch, last one first, and the choices
around it. -/
structure State where
  tokens : List Token
  choices : List OpenChoice
  /-- An unclosed bracket was met. -/
  bracketsLiteral : Bool
  /-- The character before the next one. -/
  previous : Option Char

def State.push (state : State) (token : Token) (last : Char) : State :=
  { state with tokens := token :: state.tokens, previous := some last }

/-- A new branch of the innermost choice. -/
def State.comma (state : State) : State :=
  match state.choices with
  | [] => state.push (.literal ',') ','
  | choice :: outer =>
      { state with
        tokens := []
        choices := { choice with branches := state.tokens.reverse :: choice.branches } :: outer
        previous := some ',' }

def State.openChoice (state : State) : State :=
  { state with tokens := [], choices := ⟨state.tokens, []⟩ :: state.choices, previous := some '{' }

def State.closeChoice (state : State) : Except Problem State :=
  match state.choices with
  | [] => .error .unopenedChoice
  | choice :: outer =>
      let branches := (state.tokens.reverse :: choice.branches).reverse
      .ok { state with
        tokens := .either branches :: choice.before, choices := outer, previous := some '}' }

/-- What two stars mean, by what stands around them. -/
inductive Stars where
  /-- Two wildcards of one name. -/
  | plain
  /-- Directories, together with a slash behind. -/
  | withSlash (token : Token)
  /-- Directories, with nothing behind. -/
  | atEnd (token : Token)

/-- Two stars after some tokens of the branch take the place of the token before them. -/
def State.starsAfterTokens (state : State) : List Char → Stars
  | [] => .atEnd .underneath
  | c :: _ =>
      if c == '/' then .withSlash .between
      else if (c == ',' || c == '}') && !state.choices.isEmpty then .atEnd .underneath
      else .plain

/-- Whether two stars may stand for directories after the previous character. -/
def State.mayBeDirectories (state : State) : Bool :=
  state.previous == some '/'
    || (!state.choices.isEmpty && (state.previous == some ',' || state.previous == some '{'))

/-- What two stars mean before the characters `cs`. -/
def State.stars (state : State) (cs : List Char) : Stars :=
  if state.tokens.isEmpty then
    match cs with
    | [] => .atEnd .leading
    | c :: _ => if c == '/' then .withSlash .leading else .plain
  else if state.mayBeDirectories then state.starsAfterTokens cs
  else .plain

/-- Directories take the place of the slash before them; next to other directories they change
nothing. -/
def State.pushDirectories (state : State) (token : Token) (last : Char) : State :=
  match state.tokens with
  | [] => state.push token last
  | .leading :: _ => { state with previous := some last }
  | .underneath :: _ => { state with previous := some last }
  | _ :: earlier => { state with tokens := token :: earlier, previous := some last }

def readTokens (state : State) : List Char → Except Problem State
  | [] => .ok state
  | '*' :: '*' :: cs =>
      match state.stars cs with
      | .plain => readTokens ((state.push .run '*').push .run '*') cs
      | .atEnd token => readTokens (state.pushDirectories token '*') cs
      | .withSlash token => readTokens (state.pushDirectories token '/') (cs.drop 1)
  | c :: cs =>
      if c == '?' then readTokens (state.push .single c) cs
      else if c == '*' then readTokens (state.push .run c) cs
      else if c == '{' then readTokens state.openChoice cs
      else if c == '}' then do
        readTokens (← state.closeChoice) cs
      else if c == ',' then readTokens state.comma cs
      else if c == '\\' then
        match cs with
        | [] => .error .danglingEscape
        | d :: rest => readTokens (state.push (.literal d) d) rest
      else if c == '[' && !state.bracketsLiteral then
        match readClass cs with
        | (_, .unclosed) =>
            readTokens { state.push (.literal c) c with bracketsLiteral := true } cs
        | (_, .reversed low high) => .error (.reversedRange low high)
        | (negated, .closed ranges used) =>
            readTokens (state.push (.oneOf negated ranges) ']') (cs.drop used)
      else readTokens (state.push (.literal c) c) cs
termination_by cs => cs.length
decreasing_by all_goals (simp_all; try omega)

def parse (spelling : List Char) : Except Problem (List Token) := do
  let state ← readTokens ⟨[], [], false, none⟩ spelling
  if state.choices.isEmpty then return state.tokens.reverse else throw .unclosedChoice

end Glob
end StackSynth
