import StackSynth.Bytes

/-!
# SHA-256 — the digest that names content

The hash function of FIPS 180-4 over octets.  A message is padded to whole blocks of 64 octets,
and the blocks are folded into eight 32-bit words, which are the digest.

* `Sha256.pad` — one bit, zeros, and the length of the message in bits;
* `Sha256.schedule` — the 64 words of a block;
* `Sha256.round`, `Sha256.compress` — one step, and one block;
* `Sha256.digest` — 32 octets for any message.
-/

namespace StackSynth
namespace Sha256

/-- The eight working words. -/
structure State where
  a : UInt32
  b : UInt32
  c : UInt32
  d : UInt32
  e : UInt32
  f : UInt32
  g : UInt32
  h : UInt32

/-- The first 32 bits of the fractional parts of the square roots of the first eight primes. -/
def initial : State :=
  ⟨0x6a09e667, 0xbb67ae85, 0x3c6ef372, 0xa54ff53a, 0x510e527f, 0x9b05688c, 0x1f83d9ab, 0x5be0cd19⟩

/-- The first 32 bits of the fractional parts of the cube roots of the first 64 primes. -/
def constants : List UInt32 :=
  [0x428a2f98, 0x71374491, 0xb5c0fbcf, 0xe9b5dba5, 0x3956c25b, 0x59f111f1, 0x923f82a4, 0xab1c5ed5,
   0xd807aa98, 0x12835b01, 0x243185be, 0x550c7dc3, 0x72be5d74, 0x80deb1fe, 0x9bdc06a7, 0xc19bf174,
   0xe49b69c1, 0xefbe4786, 0x0fc19dc6, 0x240ca1cc, 0x2de92c6f, 0x4a7484aa, 0x5cb0a9dc, 0x76f988da,
   0x983e5152, 0xa831c66d, 0xb00327c8, 0xbf597fc7, 0xc6e00bf3, 0xd5a79147, 0x06ca6351, 0x14292967,
   0x27b70a85, 0x2e1b2138, 0x4d2c6dfc, 0x53380d13, 0x650a7354, 0x766a0abb, 0x81c2c92e, 0x92722c85,
   0xa2bfe8a1, 0xa81a664b, 0xc24b8b70, 0xc76c51a3, 0xd192e819, 0xd6990624, 0xf40e3585, 0x106aa070,
   0x19a4c116, 0x1e376c08, 0x2748774c, 0x34b0bcb5, 0x391c0cb3, 0x4ed8aa4a, 0x5b9cca4f, 0x682e6ff3,
   0x748f82ee, 0x78a5636f, 0x84c87814, 0x8cc70208, 0x90befffa, 0xa4506ceb, 0xbef9a3f7, 0xc67178f2]

def rotateRight (x : UInt32) (n : UInt32) : UInt32 :=
  (x >>> n) ||| (x <<< (32 - n))

/-! ## Padding and the message schedule -/

/-- The zeros that bring a message of `length` octets, one more, and eight for the length, to
whole blocks. -/
def zeroCount (length : Nat) : Nat :=
  (119 - length % 64) % 64

def pad (message : Bytes) : Bytes :=
  message ++ 0x80 :: (List.replicate (zeroCount message.length) 0
    ++ Bytes.bigEndian 8 (8 * message.length))

/-- The big-endian words that octets spell, four octets a word. -/
def words : Bytes → List UInt32
  | a :: b :: c :: d :: rest =>
      ((a.toUInt32 <<< 24) ||| (b.toUInt32 <<< 16) ||| (c.toUInt32 <<< 8) ||| d.toUInt32)
        :: words rest
  | _ => []

/-- The next word from the sixteen words before it. -/
def nextWord (recent : Array UInt32) (t : Nat) : UInt32 :=
  let w15 := recent.getD (t - 15) 0
  let w2 := recent.getD (t - 2) 0
  let s0 := rotateRight w15 7 ^^^ rotateRight w15 18 ^^^ (w15 >>> 3)
  let s1 := rotateRight w2 17 ^^^ rotateRight w2 19 ^^^ (w2 >>> 10)
  recent.getD (t - 16) 0 + s0 + recent.getD (t - 7) 0 + s1

/-- Sixteen words of the block and forty-eight computed from them. -/
def schedule (block : Bytes) : List UInt32 :=
  ((List.range' 16 48).foldl (fun ws t => ws.push (nextWord ws t)) (words block).toArray).toList

/-! ## Compression -/

/-- One step, with the step's constant and word already added. -/
def round (s : State) (kw : UInt32) : State :=
  let sum1 := rotateRight s.e 6 ^^^ rotateRight s.e 11 ^^^ rotateRight s.e 25
  let choice := (s.e &&& s.f) ^^^ ((~~~ s.e) &&& s.g)
  let t1 := s.h + sum1 + choice + kw
  let sum0 := rotateRight s.a 2 ^^^ rotateRight s.a 13 ^^^ rotateRight s.a 22
  let majority := (s.a &&& s.b) ^^^ (s.a &&& s.c) ^^^ (s.b &&& s.c)
  ⟨t1 + (sum0 + majority), s.a, s.b, s.c, s.d + t1, s.e, s.f, s.g⟩

def State.add (s t : State) : State :=
  ⟨s.a + t.a, s.b + t.b, s.c + t.c, s.d + t.d, s.e + t.e, s.f + t.f, s.g + t.g, s.h + t.h⟩

def compress (s : State) (block : Bytes) : State :=
  s.add ((List.zipWith (· + ·) constants (schedule block)).foldl round s)

/-- A padded message, block by block. -/
def compressAll (s : State) (padded : Bytes) : State :=
  match _h : padded.drop 63 with
  | [] => s
  | _ :: rest => compressAll (compress s (padded.take 64)) rest
termination_by padded.length
decreasing_by
  have shorter : (padded.drop 63).length = rest.length + 1 := by simp [_h]
  simp only [List.length_drop] at shorter
  omega

/-! ## The digest -/

def State.octets (s : State) : Bytes :=
  [s.a, s.b, s.c, s.d, s.e, s.f, s.g, s.h].flatMap fun w => Bytes.bigEndian 4 w.toNat

def digest (message : Bytes) : Bytes :=
  (compressAll initial (pad message)).octets

theorem length_littleEndian (width n : Nat) : (Bytes.littleEndian width n).length = width := by
  induction width generalizing n with
  | zero => rfl
  | succ width ih => simp [Bytes.littleEndian, ih]

/-- Every digest has 32 octets. -/
theorem length_digest (message : Bytes) : (digest message).length = 32 := by
  simp [digest, State.octets, Bytes.bigEndian, length_littleEndian]

end Sha256
end StackSynth
