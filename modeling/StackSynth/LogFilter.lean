import StackSynth.Bytes.Utf8
import StackSynth.LogFilter.Pattern

/-!
# LogFilter — what is to be logged

A filter is a list of directives with commas between them.  A directive is a level; or a target,
perhaps with a span in brackets and a field of it in braces, followed by a level or by nothing.
Nothing is logged here; the filter is only checked, so that the user can be told about one that
is malformed.

* `LogFilter.Stage` — what a directive may go on with;
* `LogFilter.isDirective` — one directive;
* `LogFilter.isValid` — a whole filter.

Space around a directive is passed over while it is read, but its fields and its level are cut out
of the text as it was written, at the octets where they stand in the text without space in front.
So a level is never well formed with space on either side of its directive.
-/

namespace StackSynth
namespace LogFilter

/-- The filter that takes the place of a malformed one. -/
def standard : String := "warn"

/-! ## Levels -/

def levels : List String :=
  ["error", "warn", "info", "debug", "trace", "off"]

/-- A number from 0 to 5, with a plus or not, and with any count of zeros before it. -/
def isLevelNumber (cs : List Char) : Bool :=
  let digits :=
    match cs with
    | '+' :: rest => rest
    | cs => cs
  !digits.isEmpty && digits.all Char.isDigit
    && match digits.dropWhile (· == '0') with
      | [] => true
      | [c] => c ≤ '5'
      | _ => false

/-- A level, which may be left out. -/
def isLevel (cs : List Char) : Bool :=
  cs.isEmpty || isLevelNumber cs || levels.contains (Text.lowerAscii (String.ofList cs))

/-! ## Fields -/

/-- A number without sign that stands for a double: digits with a point anywhere among them, and
perhaps an exponent. -/
def isUnsigned (cs : List Char) : Bool :=
  let whole := cs.takeWhile Char.isDigit
  let (fraction, rest) :=
    match cs.dropWhile Char.isDigit with
    | '.' :: rest => (rest.takeWhile Char.isDigit, rest.dropWhile Char.isDigit)
    | rest => ([], rest)
  let exponent :=
    match rest with
    | [] => true
    | c :: '+' :: ds => (c == 'e' || c == 'E') && !ds.isEmpty && ds.all Char.isDigit
    | c :: '-' :: ds => (c == 'e' || c == 'E') && !ds.isEmpty && ds.all Char.isDigit
    | c :: ds => (c == 'e' || c == 'E') && !ds.isEmpty && ds.all Char.isDigit
  !(whole.isEmpty && fraction.isEmpty) && exponent

/-- A number with a plus; no pattern begins with one. -/
def isPlusNumber : List Char → Bool
  | '+' :: cs =>
      isUnsigned cs || ["inf", "infinity", "nan"].contains (Text.lowerAscii (String.ofList cs))
  | _ => false

/-- A field has a name, which may be anything, and perhaps a value behind an equals sign: a truth
value, a number or a pattern.  What follows a second equals sign does not count. -/
def isField (cs : List Char) : Bool :=
  !cs.isEmpty
    && match Text.fields '=' cs with
      | _ :: value :: _ => isPlusNumber value || Pattern.isValid value
      | _ => true

/-! ## Directives -/

/-- What has been read of a directive, and where what is being read began. -/
inductive Stage where
  | start
  /-- A level without target, or a target. -/
  | target
  | span
  | field (origin : Nat)
  /-- Behind the braces. -/
  | fields
  /-- Behind the brackets. -/
  | spanned
  | level (origin : Nat)

/-- A character that a directive may begin with, apart from a bracket. -/
def isFirst (c : Char) : Bool :=
  c == '-' || c == ':' || c == '_' || Text.isAlphanumeric c

/-- The characters from one octet of a text up to another. -/
def cut (written : Bytes) (start stop : Nat) : Option (List Char) :=
  (Utf8.decode? ((written.take stop).drop start)).map String.toList

/-- The stage after a character, which stands at the octet `here`. -/
def Stage.next (written : Bytes) (here : Nat) (c : Char) : Stage → Option Stage
  | .start => if c == '[' then some .span else if isFirst c then some .target else none
  | .target =>
      some (if c == '=' then .level (here + 1) else if c == '[' then .span else .target)
  | .span =>
      some (if c == ']' then .spanned else if c == '{' then .field (here + 1) else .span)
  | .field origin =>
      if c == '}' then
        if (cut written origin here).any isField then some .fields else none
      else some (.field origin)
  | .fields => if c == ']' then some .spanned else none
  | .spanned => if c == '=' then some (.level (here + 1)) else none
  | .level origin => some (.level origin)

/-- The stage after the characters that stand from the octet `here` on. -/
def Stage.after (written : Bytes) : (here : Nat) → Stage → List Char → Option Stage
  | _, stage, [] => some stage
  | here, stage, c :: cs => do
      after written (here + c.utf8Size) (← stage.next written here c) cs

/-- A directive may end here. -/
def Stage.isEnd (written : Bytes) : Stage → Bool
  | .target => true
  | .spanned => true
  | .level origin => (cut written origin written.length).any isLevel
  | _ => false

def isDirective (cs : List Char) : Bool :=
  let written := Utf8.encode (String.ofList cs)
  (Stage.after written 0 .start (Text.trimChars cs)).any (Stage.isEnd written)

/-- The filter is a list of directives; between commas there may also be nothing. -/
def isValid (filter : String) : Bool :=
  (Text.fields ',' filter.toList).all fun cs => cs.isEmpty || isDirective cs

end LogFilter
end StackSynth
