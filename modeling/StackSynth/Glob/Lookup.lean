import StackSynth.Glob

/-!
# Lookup — how a pattern is looked for among many

Most patterns of a set need no search: a path, or what it ends with, is looked up among them.
`Glob.lookup` says which way a pattern goes.  A class that is not negated counts like the
characters that it lists.

A path that ends in two dots has no base name, so no pattern that is looked up by the base name
or by its extension matches it.
-/

namespace StackSynth
namespace Glob

inductive Lookup where
  /-- By the base name of a path, or by the extension of that name. -/
  | name
  /-- By a path, or by one end of it. -/
  | path
  /-- By the extension of the base name, and then by a search. -/
  | extension
  | search
  deriving DecidableEq

def Token.isLiteral : Token → Bool
  | .literal _ => true
  | _ => false

/-- One character, or one of some. -/
def Token.isPlain : Token → Bool
  | .literal _ => true
  | .oneOf negated _ => !negated
  | _ => false

/-- A literal other than some characters. -/
def Token.isLiteralBut (excluded : List Char) : Token → Bool
  | .literal c => !excluded.contains c
  | _ => false

/-- Literals at the end, the last one first, up to a point and without a slash. -/
def endsInExtension : (reversed : List Token) → Bool
  | .literal c :: rest => c == '.' || (c != '/' && endsInExtension rest)
  | _ => false

/-- A base name in any directory, or any base name with some extension. -/
def isName : List Token → Bool
  | .leading :: .run :: .literal '.' :: rest => rest.all (Token.isLiteralBut ['/', '.'])
  | .leading :: first :: rest => (first :: rest).all (Token.isLiteralBut ['/'])
  | _ => false

/-- Everything under some directory. -/
def isBeginning (tokens : List Token) : Bool :=
  match tokens.reverse with
  | .underneath :: above => above.all Token.isLiteral
  | _ => false

def withoutLeading : List Token → List Token
  | .leading :: rest => rest
  | tokens => tokens

/-- A path or the end of one, of tokens that have the property. -/
def isEnd (property : Token → Bool) (tokens : List Token) : Bool :=
  !(withoutLeading tokens).isEmpty && (withoutLeading tokens).all property

def lookup (tokens : List Token) : Lookup :=
  if isName tokens then .name
  else if isEnd Token.isLiteral tokens then .path
  else if isBeginning tokens then .path
  else if endsInExtension tokens.reverse then .extension
  else if isEnd Token.isPlain tokens then .path
  else .search

/-- The pattern matches nothing but paths with a base name. -/
def needsBaseName (tokens : List Token) : Bool :=
  lookup tokens == .name || lookup tokens == .extension

/-- The last name of the path is not `..`. -/
def hasBaseName (path : Bytes) : Bool :=
  (path.reverse.takeWhile (· != slash)) != [dot, dot]

/-- The pattern matches the path. -/
def selects (tokens : List Token) (path : Bytes) : Bool :=
  (hasBaseName path || !needsBaseName tokens) && accepts tokens path

end Glob
end StackSynth
