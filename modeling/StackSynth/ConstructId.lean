import StackSynth.Failure

/-!
# ConstructId — names of constructs

A construct is named by a letter or underscore and then letters, digits, underscores and
dashes, all of them ASCII.  A resource type is a lower-case letter and then lower-case letters,
digits and underscores.

* `ConstructId.ofText`, `ResourceType.ofText` check a name and say which rule it breaks;
* a value of either type carries the proof that its name follows the rules.
-/

namespace StackSynth

def isLetter (c : Char) : Bool :=
  ('a' ≤ c && c ≤ 'z') || ('A' ≤ c && c ≤ 'Z')

def isLower (c : Char) : Bool :=
  'a' ≤ c && c ≤ 'z'

def isDigit (c : Char) : Bool :=
  '0' ≤ c && c ≤ '9'

/-- The first rule that a name breaks. -/
def brokenRule? : List Char → Option NamingRule
  | [] => some .notEmpty
  | first :: rest =>
      if !(isLetter first || first == '_') then some .startsWithLetter
      else if rest.all fun c => isLetter c || isDigit c || c == '_' || c == '-' then none
      else some .plainCharacters

structure ConstructId where
  text : String
  follows : brokenRule? text.toList = none

instance : DecidableEq ConstructId := fun a b =>
  if same : a.text = b.text then
    isTrue (by cases a; cases b; cases same; rfl)
  else isFalse fun equal => same (congrArg ConstructId.text equal)

def ConstructId.ofText (text : String) : Except Failure ConstructId :=
  match found : brokenRule? text.toList with
  | none => .ok ⟨text, found⟩
  | some rule => .error (.invalidName text rule)

/-! ## Resource types -/

def isSnakeCase : List Char → Bool
  | [] => false
  | first :: rest => isLower first && rest.all fun c => isLower c || isDigit c || c == '_'

structure ResourceType where
  text : String
  follows : isSnakeCase text.toList = true

instance : DecidableEq ResourceType := fun a b =>
  if same : a.text = b.text then
    isTrue (by cases a; cases b; cases same; rfl)
  else isFalse fun equal => same (congrArg ResourceType.text equal)

def ResourceType.ofText (text : String) : Except Failure ResourceType :=
  if follows : isSnakeCase text.toList = true then .ok ⟨text, follows⟩
  else .error (.invalidName text .snakeCase)

end StackSynth
