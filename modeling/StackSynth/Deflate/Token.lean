import StackSynth.Deflate.Bits

/-!
# Token — octets and repetitions

Data are a list of tokens: an octet, or a repetition of octets that came before.  A repetition is
written as a symbol for a range of lengths, a symbol for a range of distances, and the places in
these ranges.
-/

namespace StackSynth
namespace Deflate

/-- A repetition of `length` octets, the first of which stood `distance` octets earlier. -/
structure Repeat where
  length : Nat
  distance : Nat
  deriving DecidableEq

inductive Token where
  | octet (value : UInt8)
  | copy (source : Repeat)
  deriving DecidableEq

/-- How many octets a token stands for. -/
def Token.size : Token → Nat
  | .octet _ => 1
  | .copy source => source.length

/-! ## Ranges -/

/-- The numbers from `start` on that `extra` more bits tell apart. -/
structure Span where
  start : Nat
  extra : Nat

/-- The spans of lengths; their symbols begin at 257. -/
def lengthSpans : List Span :=
  [ ⟨3, 0⟩, ⟨4, 0⟩, ⟨5, 0⟩, ⟨6, 0⟩, ⟨7, 0⟩, ⟨8, 0⟩, ⟨9, 0⟩, ⟨10, 0⟩, ⟨11, 1⟩, ⟨13, 1⟩, ⟨15, 1⟩,
    ⟨17, 1⟩, ⟨19, 2⟩, ⟨23, 2⟩, ⟨27, 2⟩, ⟨31, 2⟩, ⟨35, 3⟩, ⟨43, 3⟩, ⟨51, 3⟩, ⟨59, 3⟩, ⟨67, 4⟩,
    ⟨83, 4⟩, ⟨99, 4⟩, ⟨115, 4⟩, ⟨131, 5⟩, ⟨163, 5⟩, ⟨195, 5⟩, ⟨227, 5⟩, ⟨258, 0⟩ ]

/-- The spans of distances; their symbols begin at 0. -/
def distanceSpans : List Span :=
  [ ⟨1, 0⟩, ⟨2, 0⟩, ⟨3, 0⟩, ⟨4, 0⟩, ⟨5, 1⟩, ⟨7, 1⟩, ⟨9, 2⟩, ⟨13, 2⟩, ⟨17, 3⟩, ⟨25, 3⟩, ⟨33, 4⟩,
    ⟨49, 4⟩, ⟨65, 5⟩, ⟨97, 5⟩, ⟨129, 6⟩, ⟨193, 6⟩, ⟨257, 7⟩, ⟨385, 7⟩, ⟨513, 8⟩, ⟨769, 8⟩,
    ⟨1025, 9⟩, ⟨1537, 9⟩, ⟨2049, 10⟩, ⟨3073, 10⟩, ⟨4097, 11⟩, ⟨6145, 11⟩, ⟨8193, 12⟩,
    ⟨12289, 12⟩, ⟨16385, 13⟩, ⟨24577, 13⟩ ]

/-- The last span that starts no later than `n`, with its index. -/
def spanOf (n : Nat) : (index : Nat) → List Span → Nat × Span
  | index, span :: next :: rest =>
      if next.start ≤ n then spanOf n (index + 1) (next :: rest) else (index, span)
  | index, [span] => (index, span)
  | index, [] => (index, ⟨0, 0⟩)

/-- The symbol that ends a block. -/
def endSymbol : Nat := 256

/-- The symbol of the first span of lengths. -/
def firstLength : Nat := 257

/-- How many symbols octets, lengths and the end of a block have. -/
def mainSymbols : Nat := 286

/-- How many symbols distances have. -/
def distanceSymbols : Nat := 30

end Deflate
end StackSynth
