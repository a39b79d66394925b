import StackSynth.Toml.Document
import StackSynth.Toml.Number

/-!
# Parser — configuration files from text

`Toml.parse?` reads a whole file (TOML 1.0) and gives its table, or nothing if the text is no
such file.

* Values nest at most `Toml.depthLimit` arrays and inline tables deep, and a dotted key has at
  most as many parts.
* Text is read character by character; a byte order mark in front of everything is skipped.
* Inside a text of several lines every line end is one line feed.

A reader takes characters and gives what it read with the characters after it.
-/

namespace StackSynth
namespace Toml

abbrev Reader (α : Type) := List Char → Option (α × List Char)

/-- Arrays and inline tables nest no deeper, and dotted keys have no more parts. -/
def depthLimit : Nat := 79

/-! ## Characters -/

def isBlank (c : Char) : Bool :=
  c == ' ' || c == '\t'

def skipBlanks (cs : List Char) : List Char :=
  cs.dropWhile isBlank

/-- Characters that may stand in a comment or a text of one line. -/
def isPlain (c : Char) : Bool :=
  c == '\t' || (0x20 ≤ c.toNat && c.toNat ≤ 0x7E) || 0x80 ≤ c.toNat

def isBareKey (c : Char) : Bool :=
  c.isAlphanum || c == '_' || c == '-'

/-- What follows a line end, if one stands in front. -/
def lineEnd? : List Char → Option (List Char)
  | '\n' :: rest => some rest
  | '\r' :: '\n' :: rest => some rest
  | _ => none

def skipComment : List Char → List Char
  | '#' :: rest => rest.dropWhile isPlain
  | cs => cs

/-- Skips blanks, comments and line ends. -/
def skipLines (cs : List Char) : List Char :=
  match _h : skipComment (skipBlanks cs) with
  | '\n' :: rest => if rest.length < cs.length then skipLines rest else cs
  | '\r' :: '\n' :: rest => if rest.length < cs.length then skipLines rest else cs
  | rest => rest
termination_by cs.length

/-- The end of a statement: blanks, perhaps a comment, and a line end or the end of the file. -/
def endOfLine? (cs : List Char) : Option (List Char) :=
  match skipComment (skipBlanks cs) with
  | [] => some []
  | rest => lineEnd? rest

/-! ## Texts -/

def hexNumber? (digits : List Char) : Option Nat :=
  digits.foldl (fun n d => do return (← n) * 16 + (← Bytes.hexValue? d)) (some 0)

/-- The character of a number, unless the number is none. -/
def scalar? (n : Nat) : Option Char :=
  if n < 0xD800 ∨ (0xDFFF < n ∧ n < 0x110000) then some (Char.ofNat n) else none

/-- An escape after its backslash: the character and the count of characters that spell it. -/
def escape? : List Char → Option (Char × Nat)
  | 'b' :: _ => some ('\x08', 1)
  | 't' :: _ => some ('\t', 1)
  | 'n' :: _ => some ('\n', 1)
  | 'f' :: _ => some ('\x0c', 1)
  | 'r' :: _ => some ('\r', 1)
  | '"' :: _ => some ('"', 1)
  | '\\' :: _ => some ('\\', 1)
  | 'u' :: rest => do
      if rest.length < 4 then none
      return (← scalar? (← hexNumber? (rest.take 4)), 5)
  | 'U' :: rest => do
      if rest.length < 8 then none
      return (← scalar? (← hexNumber? (rest.take 8)), 9)
  | _ => none

/-- A basic text after its opening quote. -/
def readBasic : List Char → Option (List Char × List Char)
  | [] => none
  | '"' :: rest => some ([], rest)
  | '\\' :: rest => do
      let (c, used) ← escape? rest
      let (cs, after) ← readBasic (rest.drop used)
      return (c :: cs, after)
  | c :: rest =>
      if isPlain c then do
        let (cs, after) ← readBasic rest
        return (c :: cs, after)
      else none
termination_by cs => cs.length
decreasing_by all_goals (simp only [List.length_drop, List.length_cons]; omega)

/-- A literal text after its opening quote. -/
def readLiteral : List Char → Option (List Char × List Char)
  | [] => none
  | '\'' :: rest => some ([], rest)
  | c :: rest =>
      if isPlain c then do
        let (cs, after) ← readLiteral rest
        return (c :: cs, after)
      else none

/-- The count of quotes at the front. -/
def quoteCount (quote : Char) (cs : List Char) : Nat :=
  (cs.takeWhile (· == quote)).length

/-- A backslash at the end of a line takes all space up to the next other character; there has
to be a line end in it. -/
def joinedLines? (cs : List Char) : Option (List Char) :=
  match skipBlanks cs with
  | '\n' :: rest => some (rest.dropWhile fun c => isBlank c || c == '\n' || c == '\r')
  | '\r' :: '\n' :: rest => some (rest.dropWhile fun c => isBlank c || c == '\n' || c == '\r')
  | _ => none

/-- A carriage return stands only before a line feed. -/
def returnsPaired : List Char → Bool
  | '\r' :: '\n' :: rest => returnsPaired rest
  | '\r' :: _ => false
  | _ :: rest => returnsPaired rest
  | [] => true

/-- The characters of a text of several lines after its three opening quotes.  It ends with
three quotes; up to two more in front of them belong to it. -/
def readLong (quote : Char) (escapes : Bool) (cs : List Char) :
    Option (List Char × List Char) :=
  match cs with
  | [] => none
  | '\n' :: rest => do
      let (text, after) ← readLong quote escapes rest
      return ('\n' :: text, after)
  | '\r' :: '\n' :: rest => do
      let (text, after) ← readLong quote escapes rest
      return ('\n' :: text, after)
  | c :: rest =>
      if c == quote then
        let count := quoteCount quote (c :: rest)
        if 3 ≤ count then
          let kept := min (count - 3) 2
          some (List.replicate kept quote, rest.drop (kept + 2))
        else do
          let (text, after) ← readLong quote escapes rest
          return (c :: text, after)
      else if c == '\\' && escapes then
        match joinedLines? rest with
        | some more =>
            let skipped := rest.take (rest.length - more.length)
            if returnsPaired skipped && more.length ≤ rest.length then
              readLong quote escapes more
            else none
        | none => do
            let (e, used) ← escape? rest
            let (text, after) ← readLong quote escapes (rest.drop used)
            return (e :: text, after)
      else if isPlain c then do
        let (text, after) ← readLong quote escapes rest
        return (c :: text, after)
      else none
termination_by cs.length
decreasing_by all_goals (simp_all; try omega)

/-- A line end right after the opening quotes does not belong to the text. -/
def dropFirstLineEnd (cs : List Char) : List Char :=
  (lineEnd? cs).getD cs

def readText : Reader String := fun cs =>
  let made (p : List Char × List Char) := (String.ofList p.1, p.2)
  match cs with
  | '"' :: '"' :: '"' :: rest => (readLong '"' true (dropFirstLineEnd rest)).map made
  | '\'' :: '\'' :: '\'' :: rest => (readLong '\'' false (dropFirstLineEnd rest)).map made
  | '"' :: rest => (readBasic rest).map made
  | '\'' :: rest => (readLiteral rest).map made
  | _ => none

/-! ## Keys -/

def readSimpleKey : Reader String := fun cs =>
  match cs with
  | '"' :: rest => (readBasic rest).map fun p => (String.ofList p.1, p.2)
  | '\'' :: rest => (readLiteral rest).map fun p => (String.ofList p.1, p.2)
  | _ =>
      let key := cs.takeWhile isBareKey
      if key.isEmpty then none else some (String.ofList key, cs.dropWhile isBareKey)

/-- The parts of a dotted key, of which there are at most `limit`. -/
def readKeyParts : (limit : Nat) → Reader (List String)
  | 0, _ => none
  | limit + 1, cs => do
      let (key, rest) ← readSimpleKey (skipBlanks cs)
      match skipBlanks rest with
      | '.' :: more => do
          let (keys, after) ← readKeyParts limit more
          return (key :: keys, after)
      | rest => return ([key], rest)

/-- A key as the keys before the last one, and the last one. -/
def readKey : Reader (List String × String) := fun cs => do
  let (keys, rest) ← readKeyParts depthLimit cs
  match keys.getLast? with
  | some last => return ((keys.dropLast, last), rest)
  | none => none

/-! ## Values -/

def isWordChar (c : Char) : Bool :=
  c.isAlphanum || c == '_' || c == '+' || c == '-' || c == '.' || c == ':'

def readWord (cs : List Char) : List Char × List Char :=
  (cs.takeWhile isWordChar, cs.dropWhile isWordChar)

/-- A date and a time may have a space between them. -/
def readBare : Reader Toml := fun cs =>
  let (word, rest) := readWord cs
  match DateTime.date? word, rest with
  | some (_, []), ' ' :: more =>
      let (next, after) := readWord more
      if (next.head?.map Char.isDigit).getD false then
        (ofWord? (word ++ ' ' :: next)).map fun v => (v, after)
      else (ofWord? word).map fun v => (v, rest)
  | _, _ => (ofWord? word).map fun v => (v, rest)

/-- Items of an array up to its closing bracket; a comma may follow the last one. -/
def readItems (item : Reader Toml) (cs : List Char) : Option (List Toml × List Char) :=
  match skipLines cs with
  | ']' :: rest => some ([], rest)
  | start => do
      let (x, rest) ← item start
      match skipLines rest with
      | ']' :: after => return ([x], after)
      | ',' :: more =>
          if more.length < cs.length then
            let (xs, after) ← readItems item more
            return (x :: xs, after)
          else none
      | _ => none
termination_by cs.length

/-- An assignment: a key, an equals sign and a value. -/
def readAssignment (value : Reader Toml) : Reader (List String × String × Toml) := fun cs => do
  let ((above, key), rest) ← readKey cs
  match rest with
  | '=' :: more => do
      let (v, after) ← value (skipBlanks more)
      return ((above, key, v), after)
  | _ => none

/-- Assignments of an inline table up to its closing brace. -/
def readPairs (value : Reader Toml) (cs : List Char) :
    Option (List (List String × String × Toml) × List Char) := do
  let (pair, rest) ← readAssignment value (skipBlanks cs)
  match skipBlanks rest with
  | '}' :: after => return ([pair], after)
  | ',' :: more =>
      if more.length < cs.length then
        let (pairs, after) ← readPairs value more
        return (pair :: pairs, after)
      else none
  | _ => none
termination_by cs.length

def readInlineTable (value : Reader Toml) : Reader Toml := fun cs =>
  match skipBlanks cs with
  | '}' :: after => some (.table [], after)
  | start => do
      let (pairs, after) ← readPairs value start
      return (← inlineTable? pairs, after)

/-- A value in which arrays and inline tables nest at most `depth` levels deep. -/
def readValue : (depth : Nat) → Reader Toml
  | _, '"' :: rest => (readText ('"' :: rest)).map fun p => (.string p.1, p.2)
  | _, '\'' :: rest => (readText ('\'' :: rest)).map fun p => (.string p.1, p.2)
  | depth + 1, '[' :: rest => (readItems (readValue depth) rest).map fun p => (.array p.1, p.2)
  | depth + 1, '{' :: rest => readInlineTable (readValue depth) rest
  | _, cs => readBare cs

/-! ## Files -/

/-- A header after its opening bracket or brackets. -/
def readHeader : Reader Statement := fun cs =>
  match cs with
  | '[' :: rest => do
      let ((above, key), rest) ← readKey rest
      match rest with
      | ']' :: ']' :: after => return (.row above key, after)
      | _ => none
  | _ => do
      let ((above, key), rest) ← readKey cs
      match rest with
      | ']' :: after => return (.header above key, after)
      | _ => none

def readStatement : Reader Statement := fun cs =>
  match cs with
  | '[' :: rest => readHeader rest
  | _ => do
      let ((above, key, value), rest) ← readAssignment (readValue depthLimit) cs
      return (.assign above key value, rest)

/-- The statements of a file, each on lines of its own. -/
def readStatements (cs : List Char) : Option (List Statement) :=
  match skipLines cs with
  | [] => some []
  | start => do
      let (statement, rest) ← readStatement start
      let more ← endOfLine? rest
      if more.length < cs.length then
        return statement :: (← readStatements more)
      else none
termination_by cs.length

/-- The text without a byte order mark. -/
def dropMark : List Char → List Char
  | '\uFEFF' :: rest => rest
  | cs => cs

def parse? (text : String) : Option Toml := do
  Document.ofStatements? (← readStatements (dropMark text.toList))

end Toml
end StackSynth
