/-!
# Text — blanks, lines and small searches

Functions on `String` that work through its list of characters.

* `Text.isSpace` — the characters with the Unicode property White_Space;
* `Text.trim`, `Text.trimEnd`, `Text.isBlank` — space at the ends of a text;
* `Text.lines` — the lines of a text, without their ends (`\n` or `\r\n`);
* `Text.lowerAscii` — `A` to `Z` as `a` to `z`, everything else as it is;
* `Text.occurs` — one text inside another.
-/

namespace StackSynth
namespace Text

/-! ## Space -/

/-- The property White_Space, character by character. -/
def isSpace (c : Char) : Bool :=
  let n := c.toNat
  (9 ≤ n && n ≤ 13) || n == 0x20 || n == 0x85 || n == 0xA0 || n == 0x1680
    || (0x2000 ≤ n && n ≤ 0x200A) || n == 0x2028 || n == 0x2029 || n == 0x202F
    || n == 0x205F || n == 0x3000

def trimEndChars (cs : List Char) : List Char :=
  (cs.reverse.dropWhile isSpace).reverse

def trimChars (cs : List Char) : List Char :=
  trimEndChars (cs.dropWhile isSpace)

def trim (text : String) : String :=
  String.ofList (trimChars text.toList)

def trimEnd (text : String) : String :=
  String.ofList (trimEndChars text.toList)

/-- Nothing but space. -/
def isBlank (text : String) : Bool :=
  text.toList.all isSpace

/-! ## Fields and lines -/

/-- The fields between occurrences of `separator`; always at least one. -/
def fields (separator : Char) : List Char → List (List Char)
  | [] => [[]]
  | c :: cs =>
      if c = separator then
        [] :: fields separator cs
      else
        match fields separator cs with
        | [] => [[c]]
        | field :: rest => (c :: field) :: rest

/-- A line end leaves no carriage return before it. -/
def dropReturn (line : List Char) : List Char :=
  match line.getLast? with
  | some '\r' => line.dropLast
  | _ => line

/-- Of the fields between line ends, all but the last were closed by one; the last is a line
only if it holds something. -/
def closeLines : List (List Char) → List (List Char)
  | [] => []
  | [last] => if last.isEmpty then [] else [last]
  | line :: rest => dropReturn line :: closeLines rest

def lines (text : String) : List String :=
  (closeLines (fields '\n' text.toList)).map String.ofList

/-! ## Case and searching -/

def lowerAsciiChar (c : Char) : Char :=
  if 'A' ≤ c ∧ c ≤ 'Z' then Char.ofNat (c.toNat + 32) else c

def lowerAscii (text : String) : String :=
  String.ofList (text.toList.map lowerAsciiChar)

/-- The list `needle` stands somewhere in a list. -/
def occursIn [BEq α] (needle : List α) : List α → Bool
  | [] => needle.isEmpty
  | x :: xs => needle.isPrefixOf (x :: xs) || occursIn needle xs

def occurs (needle text : String) : Bool :=
  occursIn needle.toList text.toList

/-- The texts with `separator` between neighbours. -/
def joinWith (separator : String) : List String → String
  | [] => ""
  | [text] => text
  | text :: rest => text ++ separator ++ joinWith separator rest

end Text
end StackSynth
