import StackSynth.Deflate.Token

/-!
# Parse — finding repetitions

Data are cut into tokens from left to right.  At every position the octets that stood earlier are
searched for the longest repetition, and it is taken unless the one at the next position is
longer.

* Candidates are the earlier positions whose next three octets have the same hash value, the
  nearest first; only so many of them are tried.
* Tokens are collected into blocks of limited size.

The search decides only how short the result gets: whatever it finds, `Repeat` says what stands
there.
-/

namespace StackSynth
namespace Deflate

/-! ## Limits -/

def shortest : Nat := 3
def longestRepeat : Nat := 258

/-- The farthest that a repetition reaches back, and the period of positions in a window. -/
def windowSize : Nat := 32768

/-- Positions in chains are known up to this period. -/
def positionPeriod : Nat := 65536

def hashSize : Nat := 32768

/-- How many rounds of candidates are tried, less one: fewer once a repetition of `longEnough`
octets is known. -/
def rounds : Nat := 44
def fewerRounds : Nat := 12
def longEnough : Nat := 32

/-- How many candidates are looked at in a round. -/
def roundSize : Nat := 3

/-- A repetition of the least length is not worth its bits from this distance on. -/
def farAway : Nat := 8192

/-- A repetition of this length is taken at once. -/
def takenAtOnce : Nat := 128

/-! ## Candidates -/

def octetAt (data : Array UInt8) (i : Nat) : UInt8 :=
  data.getD i 0

/-- The hash value of three octets. -/
def hashAt (data : Array UInt8) (i : Nat) : Nat :=
  ((octetAt data i).toNat <<< 10 ^^^ (octetAt data (i + 1)).toNat <<< 5
    ^^^ (octetAt data (i + 2)).toNat) % hashSize

/-- The last position with each hash value so far, and for each position the one before it.  A
position is known up to `positionPeriod`, and zero stands for none. -/
structure Chains where
  heads : Array Nat
  links : Array Nat

def Chains.insert (chains : Chains) (data : Array UInt8) (i : Nat) : Chains :=
  let hash := hashAt data i
  match chains with
  | ⟨heads, links⟩ =>
      let links := links.push (heads.getD hash 0)
      ⟨heads.setIfInBounds hash (i % positionPeriod), links⟩

/-- For every position but the last two, the one before it with the same hash value. -/
def linksOf (data : Array UInt8) : Array Nat :=
  let start : Chains := ⟨Array.replicate hashSize 0, #[]⟩
  ((List.range (data.size - 2)).foldl (fun (chains : Chains) i => chains.insert data i) start).links

/-! ## The longest repetition -/

/-- How many octets from two positions on are equal, at most `limit`. -/
def commonLength (data : Array UInt8) (i j : Nat) : (limit : Nat) → Nat
  | 0 => 0
  | limit + 1 =>
      if octetAt data i == octetAt data j then commonLength data (i + 1) (j + 1) limit + 1 else 0

/-- What a search is about. -/
structure Search where
  data : Array UInt8
  links : Array Nat
  position : Nat
  /-- The greatest length that can be wanted. -/
  limit : Nat
  /-- The greatest distance. -/
  reach : Nat

/-- The two octets at `i` are those at `j`. -/
def Search.samePair (s : Search) (i j : Nat) : Bool :=
  octetAt s.data i == octetAt s.data j && octetAt s.data (i + 1) == octetAt s.data (j + 1)

/-- Goes from one candidate to the next, with so many rounds left and so many candidates left in
this round.  A candidate counts if it agrees where a longer repetition than the best one would have
to. -/
def Search.from (s : Search) (candidate : Nat) (best : Repeat) : (rounds left : Nat) → Repeat
  | 0, 0 => best
  | 1, 0 => best
  | rounds + 2, 0 => s.from candidate best (rounds + 1) roundSize
  | rounds, left + 1 =>
      let link := s.links.getD candidate 0
      let distance := (s.position + positionPeriod - link) % positionPeriod
      if link = 0 || s.reach < distance then best
      else
        let candidate := s.position - distance
        if !s.samePair (candidate + best.length - 1) (s.position + best.length - 1) then
          s.from candidate best rounds left
        else if distance = 0 then best
        else if !s.samePair candidate s.position then s.from candidate best rounds 0
        else
          let length := commonLength s.data candidate s.position s.limit
          if length ≤ best.length then s.from candidate best rounds 0
          else if length = s.limit then ⟨length, distance⟩
          else s.from candidate ⟨length, distance⟩ rounds 0
termination_by rounds left => (rounds, left)

/-- The longest repetition that is found and longer than `known`, or one of distance zero. -/
def Search.longest (s : Search) (known : Nat) : Repeat :=
  if s.limit ≤ known then ⟨known, 0⟩
  else s.from s.position ⟨known, 0⟩ (if longEnough ≤ known then fewerRounds else rounds) 0

/-! ## Blocks -/

/-- Tokens that are written with one pair of codes. -/
structure Block where
  tokens : List Token
  /-- Where the octets of the block begin, and how many there are. -/
  start : Nat
  size : Nat
  /-- The octets are still at hand when the block is written. -/
  storable : Bool

/-- The tokens of the block that is being filled, the last one first. -/
structure Filling where
  tokens : List Token
  octets : Nat
  copies : Nat
  start : Nat
  size : Nat

def Filling.empty (start : Nat) : Filling :=
  ⟨[], 0, 0, start, 0⟩

def Filling.add (filling : Filling) (token : Token) : Filling :=
  { filling with
    tokens := token :: filling.tokens
    octets := filling.octets + match token with | .octet _ => 1 | .copy _ => 0
    copies := filling.copies + match token with | .octet _ => 0 | .copy _ => 1
    size := filling.size + token.size }

/-- The room that the tokens take in memory: an octet takes one place, a copy three, and every
eight tokens one more. -/
def Filling.room (filling : Filling) : Nat :=
  1 + filling.octets + 3 * filling.copies + (filling.octets + filling.copies) / 8

/-- The room for the tokens of a block. -/
def roomLimit : Nat := 65536 - 8

/-- A block of more octets than this ends early if it does not get shorter. -/
def sizeLimit : Nat := 31 * 1024

def Filling.isFull (filling : Filling) : Bool :=
  roomLimit < filling.room
    || (sizeLimit < filling.size && filling.size ≤ filling.room * 115 / 128)

def Filling.block (filling : Filling) (position atHand : Nat) : Block :=
  ⟨filling.tokens.reverse, filling.start, filling.size, position - filling.start ≤ atHand⟩

/-! ## The parse -/

/-- The parse so far: a repetition that waits for a longer one at the next position, with the octet
that stands in front if there is one. -/
structure Parse where
  waiting : Option (UInt8 × Repeat)
  filling : Filling
  /-- The finished blocks, the last one first. -/
  blocks : List Block

/-- The repetition found at a position, if it is worth while.  One that reaches back to the start of
a window is not taken. -/
def worthwhile (position : Nat) (found : Repeat) : Repeat :=
  if (found.length = shortest && farAway ≤ found.distance)
      || position % windowSize = found.distance then ⟨0, 0⟩
  else found

/-- One step at a position: the tokens that are settled, what waits, and how far to go on. -/
def settle (waiting : Option (UInt8 × Repeat)) (octet : UInt8) (found : Repeat) :
    List Token × Option (UInt8 × Repeat) × Nat :=
  match waiting with
  | some (before, known) =>
      if known.length < found.length then
        if takenAtOnce ≤ found.length then ([.octet before, .copy found], none, found.length)
        else ([.octet before], some (octet, found), 1)
      else ([.copy known], none, known.length - 1)
  | none =>
      if found.distance = 0 then ([.octet octet], none, 1)
      else if takenAtOnce ≤ found.length then ([.copy found], none, found.length)
      else ([], some (octet, found), 1)

/-- Parses from a position on; `left` octets are left. -/
def Parse.run (data : Array UInt8) (links : Array Nat) (parse : Parse) (left : Nat) : List Block :=
  if left = 0 then
    (parse.filling.block data.size (min data.size windowSize) :: parse.blocks).reverse
  else
    let position := data.size - left
    let ahead := min longestRepeat left
    let reach := min (windowSize - ahead) position
    let known :=
      match parse.waiting with
      | some (_, waiting) => waiting.length
      | none => shortest - 1
    let search : Search := ⟨data, links, position, ahead, reach⟩
    let found := worthwhile position (search.longest known)
    let (tokens, waiting, step) := settle parse.waiting (octetAt data position) found
    let filling := tokens.foldl Filling.add parse.filling
    let atHand := min (reach + step) windowSize
    let parse : Parse :=
      if filling.isFull then
        let block := filling.block (position + step) atHand
        ⟨waiting, Filling.empty (filling.start + filling.size), block :: parse.blocks⟩
      else ⟨waiting, filling, parse.blocks⟩
    parse.run data links (left - max step 1)
termination_by left
decreasing_by omega

/-- The blocks of data; there is at least one. -/
def blocksOf (data : Array UInt8) : List Block :=
  Parse.run data (linksOf data) ⟨none, Filling.empty 0, []⟩ data.size

end Deflate
end StackSynth
