import StackSynth.Deflate.Code
import StackSynth.Deflate.Lengths
import StackSynth.Deflate.Parse

/-!
# Writer — blocks as bits

A block is written in one of three ways: with codes of its own, whose lengths are written in front
of it; with fixed codes, if it is very short; or as it is, if codes would make it longer.

* `Deflate.write` — data as a string of blocks.
-/

namespace StackSynth
namespace Deflate

/-! ## Frequencies -/

/-- How often symbols occur. -/
structure Frequencies where
  main : Array Nat
  distance : Array Nat

def increment (counts : Array Nat) (i : Nat) : Array Nat :=
  counts.setIfInBounds i (counts.getD i 0 + 1)

def Frequencies.add (f : Frequencies) : Token → Frequencies
  | .octet value => { f with main := increment f.main value.toNat }
  | .copy source =>
      ⟨increment f.main (firstLength + (spanOf source.length 0 lengthSpans).1),
        increment f.distance (spanOf source.distance 0 distanceSpans).1⟩

/-- The frequencies in a block; its end occurs once. -/
def frequenciesOf (tokens : List Token) : Frequencies :=
  tokens.foldl Frequencies.add
    ⟨increment (Array.replicate mainSymbols 0) endSymbol, Array.replicate distanceSymbols 0⟩

def lengthsOf (tokens : List Token) : Lengths :=
  let frequencies := frequenciesOf tokens
  ⟨Code.lengthsFor Code.longest frequencies.main.toList,
    Code.lengthsFor Code.longest frequencies.distance.toList⟩

/-! ## Tokens -/

/-- A number as the symbol of its span and its place in the span. -/
def spanned (words : Array Bits) (first : Nat) (spans : List Span) (n : Nat) : Bits :=
  let (index, span) := spanOf n 0 spans
  words.getD (first + index) [] ++ Bits.low span.extra (n - span.start)

def tokenBits (main distance : Array Bits) : Token → Bits
  | .octet value => main.getD value.toNat []
  | .copy source =>
      spanned main firstLength lengthSpans source.length
        ++ spanned distance 0 distanceSpans source.distance

/-- The tokens of a block and its end. -/
def bodyBits (lengths : Lengths) (tokens : List Token) : Bits :=
  let main := Code.words lengths.main
  let distance := Code.words lengths.distance
  tokens.flatMap (tokenBits main distance) ++ main.getD endSymbol []

/-! ## Lengths in front of a block -/

/-- A list without the zeros at its end, but of at least `size` numbers if it had as many. -/
def trimmed (size : Nat) (lengths : List Nat) : List Nat :=
  lengths.take (max size (lengths.reverse.dropWhile (· == 0)).length)

/-- The lengths of a pair of codes. -/
def lengthsBits (lengths : Lengths) : Bits :=
  let main := trimmed firstLength lengths.main
  let distance := trimmed 1 lengths.distance
  let parts := (runs none 0 (main ++ distance)).map Run.parts
  let counts := parts.foldl (fun counts part => increment counts part.1)
    (Array.replicate runSymbols 0)
  let runLengths := Code.lengthsFor runLongest counts.toList
  let words := Code.words runLengths
  let shown := trimmed 4 (runOrder.map fun symbol => runLengths.getD symbol 0)
  Bits.low 5 (main.length - firstLength) ++ Bits.low 5 (distance.length - 1)
    ++ Bits.low 4 (shown.length - 4) ++ shown.flatMap (Bits.low 3)
    ++ parts.flatMap fun part => words.getD part.1 [] ++ Bits.low part.2.1 part.2.2

/-! ## Blocks -/

/-- A block of fewer octets than this has fixed codes. -/
def fixedLimit : Nat := 48

/-- A block of more octets than this may be written as it is. -/
def storedLimit : Nat := 32

/-- The kind of a block and its content, as codes write it. -/
def codedBits (block : Block) : Bits :=
  if block.size < fixedLimit then Bits.low 2 1 ++ bodyBits fixedLengths block.tokens
  else
    let lengths := lengthsOf block.tokens
    Bits.low 2 2 ++ lengthsBits lengths ++ bodyBits lengths block.tokens

/-- A block as it is: its kind, bits up to the next octet, its size and the complement of it, and
the octets.  `before` bits come in front. -/
def storedBits (before : Nat) (octets : Bytes) : Bits :=
  Bits.low 2 0 ++ Bits.padding (before + 2) ++ Bits.low 16 octets.length
    ++ Bits.low 16 (65535 - octets.length) ++ Bits.ofBytes octets

/-- The octets of a block. -/
def Block.octets (data : Array UInt8) (block : Block) : Bytes :=
  (data.extract block.start (block.start + block.size)).toList

/-- A block behind `before` bits. -/
def blockBits (data : Array UInt8) (before : Nat) (last : Bool) (block : Block) : Bits :=
  let coded := codedBits block
  let grown := storedLimit < block.size
    && block.size ≤ ((before + 1) % 8 + coded.length) / 8 + 1 && block.storable
  last :: if grown then storedBits (before + 1) (block.octets data) else coded

def blocksBits (data : Array UInt8) : (before : Nat) → List Block → Bits
  | _, [] => []
  | before, [block] => blockBits data before true block
  | before, block :: rest =>
      let bits := blockBits data before false block
      bits ++ blocksBits data (before + bits.length) rest

/-- Data as a string of blocks. -/
def write (bs : Bytes) : Bytes :=
  let data := bs.toArray
  Bits.pack (blocksBits data 0 (blocksOf data))

end Deflate
end StackSynth
