import StackSynth.FileSystem.Query
import StackSynth.Glob.Parser
import StackSynth.Glob.Regular
import StackSynth.Text

/-!
# IgnoreFile — which paths of a packaged directory are left out

The file `.assetignore` at the root of a packaged directory holds one pattern a line.

* `IgnoreRules.ofText` — the rules of its text, within limits;
* `IgnoreRules.load` — the rules of a directory; no file means no rules;
* `IgnoreRules.ignores` — whether a path relative to the directory is left out.

A path is decided at the first level, from itself up through its parents, at which any rule
matches, and there by the last rule that matches.  The ignore file is always left out.
-/

namespace StackSynth

/-- One line of an ignore file. -/
structure IgnoreRule where
  pattern : List Glob.Token
  /-- Paths that match are kept, not left out. -/
  keeps : Bool
  directoriesOnly : Bool

/-- The rules of an ignore file, in its order. -/
structure IgnoreRules where
  rules : List IgnoreRule

/-- Why an ignore file cannot be used. -/
inductive IgnoreFailure where
  | tooLarge (file : Path) (size : Nat)
  | tooMany (file : Path)
  | badPattern (file : Path) (line : Nat) (text : String) (problem : Glob.Problem)
  /-- A pattern nests too deep: its place among those that are searched for together, or the
  expression of one that is searched for alone. -/
  | tooDeep (index : Nat)
  | tooDeepAlone (expression : String)
  | unreadable (fault : Fault)

namespace IgnoreRule

/-! ## One line -/

/-- The text of a line that counts: space at its end belongs to it only after a backslash. -/
def lineText (line : String) : List Char :=
  if [' ', '\\'].isPrefixOf line.toList.reverse then line.toList
  else Text.trimEndChars line.toList

/-- What is written before the pattern: `!` keeps, a slash ties it to the root, and a backslash
makes either of `!` and `#` part of the pattern. -/
structure Marks where
  keeps : Bool
  anchored : Bool
  rest : List Char

def marks : List Char → Marks
  | '\\' :: '!' :: cs => ⟨false, false, '!' :: cs⟩
  | '\\' :: '#' :: cs => ⟨false, false, '#' :: cs⟩
  | '!' :: '/' :: cs => ⟨true, true, cs⟩
  | '!' :: cs => ⟨true, false, cs⟩
  | '/' :: cs => ⟨false, true, cs⟩
  | cs => ⟨false, false, cs⟩

/-- A slash at the end means directories only; it goes, with a backslash before it. -/
def dropLastSlash (cs : List Char) : Bool × List Char :=
  match cs.reverse with
  | '/' :: '\\' :: front => (true, front.reverse)
  | '/' :: front => (true, front.reverse)
  | _ => (false, cs)

/-- A pattern without a slash matches in every directory. -/
def anyDirectory (anchored : Bool) (cs : List Char) : List Char :=
  if anchored || cs.contains '/' || cs == ['*', '*'] then cs else '*' :: '*' :: '/' :: cs

/-- A pattern that ends with directories matches what is in them, not themselves. -/
def contentsOnly (cs : List Char) : List Char :=
  if ['*', '*', '/'].isPrefixOf cs.reverse then cs ++ ['/', '*'] else cs

/-- The rule of a line. -/
def ofLine (line : List Char) : Except Glob.Problem IgnoreRule := do
  let marks := marks line
  let (directoriesOnly, cs) := dropLastSlash marks.rest
  let pattern ← Glob.parse (contentsOnly (anyDirectory marks.anchored cs))
  return ⟨pattern, marks.keeps, directoriesOnly⟩

def applies (rule : IgnoreRule) (path : Bytes) (isDirectory : Bool) : Bool :=
  (isDirectory || !rule.directoriesOnly) && Glob.selects rule.pattern path

end IgnoreRule

namespace IgnoreRules

/-! ## Reading a file -/

/-- The name of the ignore file. -/
def fileName : String := ".assetignore"

/-- The most octets of an ignore file. -/
def sizeLimit : Nat := 65536

/-- The most patterns of an ignore file. -/
def countLimit : Nat := 1000

def none : IgnoreRules :=
  ⟨[]⟩

/-- Lines that hold a pattern: neither blank nor a comment. -/
def isEffective (line : String) : Bool :=
  match Text.trimChars line.toList with
  | [] => false
  | c :: _ => c != '#'

/-- The rules of lines, which are numbered from `number`; `count` patterns came before. -/
def ofLines (file : Path) (number count : Nat) :
    List String → Except IgnoreFailure (List IgnoreRule)
  | [] => .ok []
  | line :: rest =>
      if isEffective line then
        if count = countLimit then .error (.tooMany file)
        else
          match IgnoreRule.ofLine (IgnoreRule.lineText line) with
          | .error problem =>
              .error (.badPattern file number line problem)
          | .ok rule => do
              let rules ← ofLines file (number + 1) (count + 1) rest
              return rule :: rules
      else ofLines file (number + 1) count rest

/-- The patterns of rules that are looked up in some way. -/
def patternsBy (way : Glob.Lookup) (rules : List IgnoreRule) : List (List Glob.Token) :=
  (rules.map IgnoreRule.pattern).filter fun pattern => Glob.lookup pattern == way

/-- The first pattern that nests too deep.  Those that are searched for alone come first. -/
def tooDeep? (rules : List IgnoreRule) : Option IgnoreFailure :=
  match (patternsBy .extension rules).find? Glob.tooDeep with
  | some pattern => some (.tooDeepAlone (Glob.regular pattern))
  | Option.none => ((patternsBy .search rules).findIdx? Glob.tooDeep).map .tooDeep

def ofText (file : Path) (text : String) : Except IgnoreFailure IgnoreRules := do
  let rules ← ofLines file 1 0 (Text.lines text)
  match tooDeep? rules with
  | some failure => throw failure
  | Option.none => return ⟨rules⟩

/-- The rules of the directory `root`. -/
def load (fs : FileSystem) (root : Path) : Except IgnoreFailure IgnoreRules := do
  let file := root.childText fileName
  match fs.stat file with
  | .ok (_, .file content _) =>
      if sizeLimit < content.length then throw (.tooLarge file content.length)
      match fs.readText file with
      | .ok text => ofText file text
      | .error fault => throw (.unreadable fault)
  | _ => return none

def count (rules : IgnoreRules) : Nat :=
  rules.rules.length

/-! ## Deciding a path -/

/-- What the rules say about one level: left out, kept, or nothing. -/
def verdict? (rules : IgnoreRules) (path : Bytes) (isDirectory : Bool) : Option Bool :=
  (rules.rules.reverse.find? fun rule => rule.applies path isDirectory).map fun rule => !rule.keeps

/-- The verdict of the first level that has one. -/
def firstVerdict (rules : IgnoreRules) : List Path → Bool
  | [] => false
  | level :: above =>
      match rules.verdict? level.bytes true with
      | some ignored => ignored
      | Option.none => firstVerdict rules above

/-- A path without `./` in front, and without a slash in front of several names. -/
def stripped (path : Path) : Path :=
  let bytes :=
    match path.bytes with
    | a :: b :: rest => if a = dot ∧ b = slash then rest else a :: b :: rest
    | bytes => bytes
  match bytes with
  | b :: rest => if b = slash then ⟨rest⟩ else ⟨b :: rest⟩
  | [] => ⟨[]⟩

/-- The ignore file itself. -/
def isIgnoreFile (path : Path) : Bool :=
  path.sameName (Path.ofString fileName)

def ignores (rules : IgnoreRules) (path : Path) (isDirectory : Bool) : Bool :=
  if isIgnoreFile path then true
  else if rules.rules.isEmpty then false
  else
    let path := stripped path
    match rules.verdict? path.bytes isDirectory with
    | some ignored => ignored
    | Option.none => firstVerdict rules path.ancestors

end IgnoreRules

/-! ## Wording -/

def IgnoreFailure.message : IgnoreFailure → String
  | .tooLarge file size =>
      ".assetignore exceeds 64KB limit (" ++ toString size ++ " bytes): " ++ file.display
  | .tooMany file => ".assetignore has more than 1000 patterns: " ++ file.display
  | .badPattern file line text problem =>
      "invalid pattern at " ++ file.display ++ ":" ++ toString line ++ ": '" ++ text
        ++ "' - error parsing glob '" ++ String.ofList (IgnoreRule.lineText text) ++ "': "
        ++ problem.message
  | .tooDeep index =>
      "failed to build ignore matcher: error parsing pattern " ++ toString index
  | .tooDeepAlone expression =>
      "failed to build ignore matcher: error parsing glob '" ++ expression
        ++ "': error parsing pattern 0"
  | .unreadable fault => "IO error reading .assetignore: " ++ fault.message

end StackSynth
