import StackSynth.Json.Parser

/-!
# Outline — documents as far as they can be read

Where a document has to fit a record, what is met first decides: a value that does not fit may
stand before the place at which the text is no document any more.  An outline is a document up to
that place.

* `Json.Outline.ofText` — the outline of a text, and what follows it there;
* `Json.Outline.whole` — nothing is broken in an outline.

Texts and numbers are delimited first and read later, so a number that is too large and a text
with half a character have an outline, and only their value is missing.  Containers may nest as
deep as they like.
-/

namespace StackSynth
namespace Json

inductive Outline where
  /-- No document can be read here. -/
  | broken
  | null
  | bool (value : Bool)
  | number (value : Option Number)
  | string (value : Option String)
  | array (items : List Outline)
  | object (members : List (Option String × Outline))
  deriving Inhabited

namespace Outline

mutual

def whole : Outline → Bool
  | .broken => false
  | .array items => wholeItems items
  | .object members => wholeMembers members
  | _ => true

def wholeItems : List Outline → Bool
  | [] => true
  | item :: rest => whole item && wholeItems rest

def wholeMembers : List (Option String × Outline) → Bool
  | [] => true
  | (_, value) :: rest => whole value && wholeMembers rest

end

/-! ## Scalars -/

/-- What follows the closing quote of a text. -/
def afterString : List Char → Option (List Char)
  | [] => none
  | '"' :: rest => some rest
  | '\\' :: 'u' :: a :: b :: c :: d :: rest =>
      if (hexQuad? a b c d).isSome then afterString rest else none
  | '\\' :: c :: rest => if (unescaped? c).isSome then afterString rest else none
  | c :: rest => if c == '\\' || c.toNat < 0x20 then none else afterString rest

/-- A text after its opening quote, and what follows it. -/
def readText (cs : List Char) : Option (Option String × List Char) :=
  (afterString cs).map fun rest =>
    ((readStringBody cs).map fun p => String.ofList p.1, rest)

/-- What was read, or a broken document with nothing behind it. -/
def orBroken (reading : Option (Outline × List Char)) : Outline × List Char :=
  reading.getD (.broken, [])

def readScalar : List Char → Outline × List Char
  | '"' :: rest => orBroken ((readText rest).map fun p => (.string p.1, p.2))
  | 'n' :: rest => orBroken (readWord ['n', 'u', 'l', 'l'] .null ('n' :: rest))
  | 't' :: rest => orBroken (readWord ['t', 'r', 'u', 'e'] (.bool true) ('t' :: rest))
  | 'f' :: rest => orBroken (readWord ['f', 'a', 'l', 's', 'e'] (.bool false) ('f' :: rest))
  | cs => orBroken ((readNumeral cs).map fun p => (.number p.1.value?, p.2))

/-! ## Containers -/

/-- One or more elements with commas between them, up to a closing mark; a broken one stands
where they break off. -/
def readElements (element : List Char → α × List Char) (broken : α) (closeMark : Char)
    (cs : List Char) : List α × List Char :=
  let (x, rest) := element (skipSpace cs)
  match skipSpace rest with
  | c :: more =>
      if c == closeMark then ([x], more)
      else if c == ',' && more.length < cs.length then
        let (xs, after) := readElements element broken closeMark more
        (x :: xs, after)
      else ([x, broken], [])
  | [] => ([x, broken], [])
termination_by cs.length
decreasing_by simp_all

/-- The elements of a container after its opening mark. -/
def readBody (element : List Char → α × List Char) (broken : α) (closeMark : Char)
    (cs : List Char) : List α × List Char :=
  match skipSpace cs with
  | c :: rest =>
      if c == closeMark then ([], rest) else readElements element broken closeMark (c :: rest)
  | [] => ([broken], [])

def brokenMember : Option String × Outline :=
  (none, .broken)

def readMember (value : List Char → Outline × List Char) (cs : List Char) :
    (Option String × Outline) × List Char :=
  match cs with
  | '"' :: rest =>
      match readText rest with
      | none => (brokenMember, [])
      | some (key, rest) =>
          match skipSpace rest with
          | ':' :: more =>
              let (v, after) := value (skipSpace more)
              ((key, v), after)
          | _ => ((key, .broken), [])
  | _ => (brokenMember, [])

/-- One outline, without space before it, whose containers nest at most `depth` levels. -/
def readValue : (depth : Nat) → List Char → Outline × List Char
  | 0, cs => readScalar cs
  | depth + 1, cs =>
      match cs with
      | '[' :: rest =>
          let (items, after) := readBody (readValue depth) .broken ']' rest
          (.array items, after)
      | '{' :: rest =>
          let (members, after) := readBody (readMember (readValue depth)) brokenMember '}' rest
          (.object members, after)
      | cs => readScalar cs

/-- No text nests deeper than it is long. -/
def ofText (text : String) : Outline × List Char :=
  let cs := text.toList
  let (outline, rest) := readValue cs.length (skipSpace cs)
  (outline, skipSpace rest)

end Outline
end Json
end StackSynth
