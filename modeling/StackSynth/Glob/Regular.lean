import StackSynth.Glob.Lookup
import StackSynth.Nesting
import StackSynth.Text

/-!
# Regular — patterns as regular expressions

A pattern that is searched for is written as a regular expression over octets.

* `Glob.regular` — the text of the expression;
* `Glob.depth` — how deep the expression nests;
* `Glob.tooDeep` — it nests deeper than an expression may.
-/

namespace StackSynth
namespace Glob

/-! ## Text -/

/-- Characters that mean something in an expression unless a backslash stands before them. -/
def isMark (c : Char) : Bool :=
  ['\\', '.', '+', '*', '?', '(', ')', '|', '[', ']', '\x7b', '\x7d', '^', '$', '#', '&', '-',
    '~'].contains c

def regularOctet (b : UInt8) : String :=
  if b < 0x80 then
    let c := Char.ofNat b.toNat
    if isMark c then "\\" ++ c.toString else c.toString
  else "\\x" ++ Bytes.hex [b]

def regularChar (c : Char) : String :=
  String.join ((Utf8.encode (String.singleton c)).map regularOctet)

def regularRange (range : Char × Char) : String :=
  if range.1 = range.2 then regularChar range.1
  else regularChar range.1 ++ "-" ++ regularChar range.2

mutual

def Token.regular : Token → String
  | .literal c => regularChar c
  | .single => "[^/]"
  | .run => "[^/]*"
  | .leading => "(?:/?|.*/)"
  | .between => "(?:/|/.*/)"
  | .underneath => "/.*"
  | .oneOf negated ranges =>
      "[" ++ (if negated then "^" else "") ++ String.join (ranges.map regularRange) ++ "]"
  | .either branches =>
      match regularBranches branches with
      | [] => ""
      | texts => "(?:" ++ Text.joinWith "|" texts ++ ")"

def regularTokens : List Token → String
  | [] => ""
  | token :: rest => token.regular ++ regularTokens rest

/-- Branches that stand for nothing are left out. -/
def regularBranches : List (List Token) → List String
  | [] => []
  | branch :: rest =>
      if vacuous branch then regularBranches rest
      else regularTokens branch :: regularBranches rest

end

def regular (tokens : List Token) : String :=
  let body :=
    match tokens with
    | [.leading] => ".*"
    | tokens => regularTokens tokens
  "(?-u)^" ++ body ++ "$"

/-! ## Depth -/

/-- The count of the octets and ranges of octets in a class. -/
def itemCount (ranges : List (Char × Char)) : Nat :=
  (ranges.flatMap fun range => octetRanges range.1 range.2).length

mutual

/-- The depths of the parts that a token is written with. -/
def Token.depths : Token → List Nat
  | .literal c => List.replicate c.utf8Size 0
  | .single => [1]
  | .run => [2]
  | .leading => [4]
  | .between => [4]
  | .underneath => [0, 1]
  | .oneOf _ ranges => [if itemCount ranges ≤ 1 then 1 else 2]
  | .either branches =>
      match branchDepths branches with
      | [] => []
      | depths => [Nesting.joined depths + 1]

def depths : List Token → List Nat
  | [] => []
  | token :: rest => token.depths ++ depths rest

def branchDepths : List (List Token) → List Nat
  | [] => []
  | branch :: rest =>
      if vacuous branch then branchDepths rest
      else Nesting.joined (depths branch) :: branchDepths rest

end

/-- The depth of the expression, whose parts stand between its two ends. -/
def depth : List Token → Nat
  | [.leading] => 2
  | tokens => Nesting.deepest (depths tokens) + 1

def tooDeep (tokens : List Token) : Bool :=
  Nesting.limit < depth tokens

end Glob
end StackSynth
