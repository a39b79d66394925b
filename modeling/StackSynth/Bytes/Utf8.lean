import StackSynth.Bytes

/-!
# UTF-8 — text as octets

* `Utf8.encode` — the octets of a text;
* `Utf8.decode?` — the text of well-formed octets, and nothing else;
* `Utf8.display` — some text for any octets: well-formed octets are shown as they are, and
  each longest ill-formed beginning of a character becomes one U+FFFD.

`Utf8.display` agrees with `Utf8.decode?` wherever the latter answers, so a name that is text
is displayed as itself.
-/

namespace StackSynth
namespace Utf8

def encode (text : String) : Bytes :=
  text.toUTF8.data.toList

/-- Octets as the standard library holds them. -/
def pack (bs : Bytes) : ByteArray :=
  ⟨bs.toArray⟩

def decode? (bs : Bytes) : Option String :=
  String.fromUTF8? (pack bs)

theorem decode?_encode (text : String) : decode? (encode text) = some text := by
  have packed : pack (encode text) = text.toUTF8 := by
    simp [pack, encode]
  have valid : text.toUTF8.IsValidUTF8 := text.isValidUTF8
  simp only [decode?, packed, String.fromUTF8?]
  split
  · rfl
  · rename_i invalid
    exact absurd (by simpa using valid) invalid

/-! ## Display of arbitrary octets -/

/-- An octet that continues a character. -/
def isTail (b : UInt8) : Bool :=
  0x80 ≤ b && b ≤ 0xBF

/-- How many octets follow the first one, and the range allowed for the second. -/
def lead? (b : UInt8) : Option (Nat × UInt8 × UInt8) :=
  if b < 0x80 then some (0, 0x80, 0xBF)
  else if 0xC2 ≤ b && b ≤ 0xDF then some (1, 0x80, 0xBF)
  else if b == 0xE0 then some (2, 0xA0, 0xBF)
  else if b == 0xED then some (2, 0x80, 0x9F)
  else if 0xE1 ≤ b && b ≤ 0xEF then some (2, 0x80, 0xBF)
  else if b == 0xF0 then some (3, 0x90, 0xBF)
  else if 0xF1 ≤ b && b ≤ 0xF3 then some (3, 0x80, 0xBF)
  else if b == 0xF4 then some (3, 0x80, 0x8F)
  else none

/-- The longest run of at most `count` continuing octets at the front, the first of them
between `low` and `high`. -/
def tailRun (count : Nat) (low high : UInt8) : Bytes → Bytes
  | [] => []
  | b :: bs =>
      if count = 0 then []
      else if low ≤ b && b ≤ high then b :: (bs.takeWhile isTail).take (count - 1)
      else []

/-- One piece of the display: a whole character, or `none` for a beginning of one that is
not continued. -/
def piece (b : UInt8) (bs : Bytes) : Option Char × Nat :=
  match lead? b with
  | none => (none, 0)
  | some (count, low, high) =>
      let run := tailRun count low high bs
      if run.length = count then
        let first := if count = 0 then b.toNat else b.toNat % Nat.pow 2 (6 - count)
        (some (Char.ofNat (run.foldl (fun n t => n * 64 + t.toNat % 64) first)), count)
      else
        (none, run.length)

/-- The pieces of any octets, from left to right. -/
def pieces : Bytes → List (Option Char)
  | [] => []
  | b :: bs => (piece b bs).1 :: pieces (bs.drop (piece b bs).2)
termination_by bs => bs.length
decreasing_by simp only [List.length_drop, List.length_cons]; omega

def display (bs : Bytes) : String :=
  match decode? bs with
  | some text => text
  | none => String.ofList ((pieces bs).map (·.getD '\uFFFD'))

theorem display_encode (text : String) : display (encode text) = text := by
  simp [display, decode?_encode]

end Utf8
end StackSynth
