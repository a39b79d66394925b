import StackSynth.Deflate.Code
import StackSynth.Deflate.Lengths

/-!
# Reader — data from blocks

* `Deflate.read?` — the data that a string of blocks stands for, and what follows the last block.

A block has codes of its own, has fixed codes, or holds its octets as they are.
-/

namespace StackSynth
namespace Deflate

/-- Data read so far, and the bits that follow. -/
structure Progress where
  data : Array UInt8
  rest : Bits

/-! ## Tokens -/

/-- A number by the symbol of its span. -/
def spanned? (spans : List Span) (index : Nat) (bits : Bits) : Option (Nat × Bits) := do
  let span ← spans[index]?
  let (offset, rest) ← Bits.take? span.extra bits
  return (span.start + offset, rest)

/-- The data with a repetition put behind. -/
def copy? (distance : Nat) : (length : Nat) → Array UInt8 → Option (Array UInt8)
  | 0, data => some data
  | length + 1, data =>
      if distance = 0 ∨ data.size < distance then none
      else copy? distance length (data.push (data.getD (data.size - distance) 0))

/-- The tokens up to the end of a block; each takes a bit or more, so that `fuel` need be no more
than the number of bits. -/
def readBody (main distance : Code.Table) : (fuel : Nat) → Progress → Option Progress
  | 0, _ => none
  | fuel + 1, progress => do
      let (symbol, rest) ← main.decode? progress.rest
      if symbol < endSymbol then
        readBody main distance fuel ⟨progress.data.push (UInt8.ofNat symbol), rest⟩
      else if symbol = endSymbol then return ⟨progress.data, rest⟩
      else
        let (length, rest) ← spanned? lengthSpans (symbol - firstLength) rest
        let (symbol, rest) ← distance.decode? rest
        let (back, rest) ← spanned? distanceSpans symbol rest
        readBody main distance fuel ⟨← copy? back length progress.data, rest⟩

/-! ## Lengths in front of a block -/

/-- The next `count` numbers of three bits. -/
def readTriples : (count : Nat) → Bits → Option (List Nat × Bits)
  | 0, bits => some ([], bits)
  | count + 1, bits => do
      let (n, rest) ← Bits.take? 3 bits
      let (more, rest) ← readTriples count rest
      return (n :: more, rest)

/-- Lengths from runs, until there are `count`; those so far come last first. -/
def readRuns (table : Code.Table) (count : Nat) :
    (fuel : Nat) → (found : List Nat) → Bits → Option (List Nat × Bits)
  | 0, _, _ => none
  | fuel + 1, found, bits =>
      if found.length = count then some (found.reverse, bits)
      else if count < found.length then none
      else do
        let (symbol, rest) ← table.decode? bits
        if symbol < 16 then readRuns table count fuel (symbol :: found) rest
        else if symbol = 16 then
          let (more, rest) ← Bits.take? 2 rest
          let last ← found.head?
          readRuns table count fuel (List.replicate (more + 3) last ++ found) rest
        else if symbol = 17 then
          let (more, rest) ← Bits.take? 3 rest
          readRuns table count fuel (List.replicate (more + 3) 0 ++ found) rest
        else
          let (more, rest) ← Bits.take? 7 rest
          readRuns table count fuel (List.replicate (more + 11) 0 ++ found) rest

/-- The pair of codes in front of a block. -/
def readTables (bits : Bits) : Option (Code.Table × Code.Table × Bits) := do
  let (mainMore, rest) ← Bits.take? 5 bits
  let (distanceMore, rest) ← Bits.take? 5 rest
  let (runMore, rest) ← Bits.take? 4 rest
  let (shown, rest) ← readTriples (runMore + 4) rest
  let table ← Code.table? (Code.placed runSymbols (runOrder.zip shown))
  let mainCount := mainMore + firstLength
  let count := mainCount + distanceMore + 1
  if mainSymbols < mainCount then none
  let (lengths, rest) ← readRuns table count (count + 1) [] rest
  return (← Code.table? (lengths.take mainCount), ← Code.table? (lengths.drop mainCount), rest)

/-! ## Blocks -/

/-- So many octets. -/
def readOctets : (count : Nat) → Progress → Option Progress
  | 0, progress => some progress
  | count + 1, progress => do
      let (n, rest) ← Bits.take? 8 progress.rest
      readOctets count ⟨progress.data.push (UInt8.ofNat n), rest⟩

/-- The octets of a block that holds them as they are; it goes on with the next whole octet. -/
def readStored (progress : Progress) : Option Progress := do
  let (size, rest) ← Bits.take? 16 (progress.rest.drop (progress.rest.length % 8))
  let (complement, rest) ← Bits.take? 16 rest
  if size + complement ≠ 65535 then none
  readOctets size ⟨progress.data, rest⟩

/-- The content of a block of a kind: as it is, with fixed codes, or with codes of its own. -/
def readBlock (kind : Nat) (progress : Progress) : Option Progress :=
  match kind with
  | 0 => readStored progress
  | 1 => do
      readBody (← Code.table? fixedLengths.main) (← Code.table? fixedLengths.distance)
        progress.rest.length progress
  | 2 => do
      let (main, distance, rest) ← readTables progress.rest
      readBody main distance rest.length ⟨progress.data, rest⟩
  | _ => none

/-- Blocks up to the last one; each takes a bit or more. -/
def readBlocks : (fuel : Nat) → Progress → Option Progress
  | 0, _ => none
  | fuel + 1, progress => do
      let (last, rest) ← Bits.take? 1 progress.rest
      let (kind, rest) ← Bits.take? 2 rest
      let progress ← readBlock kind ⟨progress.data, rest⟩
      if last = 1 then return progress else readBlocks fuel progress

/-- The data that a string of blocks stands for, and the octets behind the last block. -/
def read? (bs : Bytes) : Option (Bytes × Bytes) := do
  let bits := Bits.ofBytes bs
  let progress ← readBlocks bits.length ⟨#[], bits⟩
  return (progress.data.toList, bs.drop (bs.length - progress.rest.length / 8))

end Deflate
end StackSynth
