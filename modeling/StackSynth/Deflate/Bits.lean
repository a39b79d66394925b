import StackSynth.Bytes

/-!
# Bits — octets as strings of bits

Compressed data are read bit by bit, from the lowest bit of each octet to the highest.

* `Bits.ofBytes` and `Bits.pack` — the bits of octets, and octets of bits, filled up with zeros;
* `Bits.low` and `Bits.high` — a number in a fixed count of bits, lowest or highest first;
* `Bits.take?` — a number from the front of a string of bits.
-/

namespace StackSynth

/-- A string of bits. -/
abbrev Bits := List Bool

namespace Bits

/-- The lowest `width` bits of a number, lowest first. -/
def low : (width : Nat) → (n : Nat) → Bits
  | 0, _ => []
  | width + 1, n => (n % 2 == 1) :: low width (n / 2)

/-- The lowest `width` bits of a number, highest first. -/
def high (width n : Nat) : Bits :=
  (low width n).reverse

/-- The number that bits spell, lowest first. -/
def value : Bits → Nat
  | [] => 0
  | bit :: rest => (if bit then 1 else 0) + 2 * value rest

def ofBytes (bs : Bytes) : Bits :=
  bs.flatMap fun b => low 8 b.toNat

/-- The octets of a string of bits. -/
def pack : Bits → Bytes
  | [] => []
  | bit :: rest => UInt8.ofNat (value ((bit :: rest).take 8)) :: pack (rest.drop 7)
termination_by bits => bits.length
decreasing_by simp only [List.length_drop, List.length_cons]; omega

/-- The bits that fill up the last octet of `size` bits. -/
def padding (size : Nat) : Bits :=
  List.replicate ((8 - size % 8) % 8) false

/-- The number in the first `width` bits, and what follows them. -/
def take? : (width : Nat) → Bits → Option (Nat × Bits)
  | 0, bits => some (0, bits)
  | _ + 1, [] => none
  | width + 1, bit :: rest => do
      let (n, after) ← take? width rest
      return ((if bit then 1 else 0) + 2 * n, after)

end Bits
end StackSynth
