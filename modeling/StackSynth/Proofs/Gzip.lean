import Mathlib
import StackSynth.Gzip
import StackSynth.Sha256

/-!
# Gzip — what is wrapped is not lost

A compressed file is used only if it reads back.  Otherwise the octets are stored as they are,
and so it is enough that stored blocks can be read.

* `Bits.take?_low` — a number in a fixed count of bits;
* `Deflate.readBlocks_store` — stored blocks, with whatever follows them;
* `Gzip.contents?_wrap` — the stream of a wrapped stream.
-/

namespace StackSynth

namespace Bits

/-! ## Numbers -/

theorem take?_low (width n : Nat) (rest : Bits) :
    take? width (low width n ++ rest) = some (n % 2 ^ width, rest) := by
  induction width generalizing n with
  | zero => simp [take?, low, Nat.mod_one]
  | succ width ih =>
      have number : (if (n % 2 == 1) = true then 1 else 0) + 2 * (n / 2 % 2 ^ width)
          = n % 2 ^ (width + 1) := by
        rw [Nat.pow_succ', Nat.mod_mul]
        rcases Nat.mod_two_eq_zero_or_one n with even | odd
        · simp [even]
        · simp [odd]
      rw [low, List.cons_append, take?, ih]
      simpa using number

theorem low_add (a b n : Nat) : low (a + b) n = low a n ++ low b (n / 2 ^ a) := by
  induction a generalizing n with
  | zero => simp [low]
  | succ a ih =>
      rw [Nat.succ_add, low, ih, low, Nat.pow_succ', Nat.div_div_eq_div_mul]
      rfl

theorem low_mod (width n : Nat) : low width (n % 2 ^ width) = low width n := by
  induction width generalizing n with
  | zero => rfl
  | succ width ih =>
      have first : n % 2 ^ (width + 1) % 2 = n % 2 := by
        rw [Nat.pow_succ']
        exact Nat.mod_mul_right_mod n 2 (2 ^ width)
      have others : n % 2 ^ (width + 1) / 2 = n / 2 % 2 ^ width := by
        rw [Nat.pow_succ', Nat.mod_mul_right_div_self]
      rw [low, low, first, others, ih]

theorem length_low (width n : Nat) : (low width n).length = width := by
  induction width generalizing n with
  | zero => rfl
  | succ width ih => rw [low, List.length_cons, ih]

theorem ofBytes_append (a b : Bytes) : ofBytes (a ++ b) = ofBytes a ++ ofBytes b := by
  simp [ofBytes]

theorem ofBytes_cons (b : UInt8) (bs : Bytes) : ofBytes (b :: bs) = low 8 b.toNat ++ ofBytes bs := by
  simp [ofBytes]

theorem length_ofBytes (bs : Bytes) : (ofBytes bs).length = 8 * bs.length := by
  induction bs with
  | nil => rfl
  | cons b bs ih =>
      rw [ofBytes_cons, List.length_append, length_low, ih, List.length_cons]
      omega

/-- Octets from the least significant one are bits from the lowest one. -/
theorem ofBytes_littleEndian (width n : Nat) :
    ofBytes (Bytes.littleEndian width n) = low (8 * width) n := by
  induction width generalizing n with
  | zero => rfl
  | succ width ih =>
      have octet : low 8 (UInt8.ofNat (n % 256)).toNat = low 8 n := by
        have small : (UInt8.ofNat (n % 256)).toNat = n % 2 ^ 8 := by
          simp [UInt8.toNat_ofNat']
        rw [small, low_mod]
      rw [Bytes.littleEndian, ofBytes_cons, octet, ih, Nat.mul_succ, Nat.add_comm, low_add]
      norm_num

end Bits

namespace Deflate

/-! ## Stored blocks -/

theorem readOctets_ofBytes (bs tail : Bytes) (data : Array UInt8) :
    readOctets bs.length ⟨data, Bits.ofBytes (bs ++ tail)⟩
      = some ⟨data ++ bs, Bits.ofBytes tail⟩ := by
  induction bs generalizing data with
  | nil => simp [readOctets]
  | cons b bs ih =>
      have octet : UInt8.ofNat (b.toNat % 2 ^ 8) = b := by
        rw [Nat.mod_eq_of_lt b.toNat_lt, UInt8.ofNat_toNat]
      rw [List.length_cons, readOctets, List.cons_append, Bits.ofBytes_cons, Bits.take?_low]
      simp only [Option.bind_eq_bind, Option.bind_some, octet, ih]
      simp

theorem readStored_storedBlock {bs : Bytes} (limited : bs.length ≤ storeLimit) (tail : Bytes)
    (data : Array UInt8) (skipped : Bits) (few : skipped.length < 8) :
    readStored ⟨data, skipped ++ Bits.ofBytes (Bytes.littleEndian 2 bs.length
        ++ Bytes.littleEndian 2 (storeLimit - bs.length) ++ bs ++ tail)⟩
      = some ⟨data ++ bs, Bits.ofBytes tail⟩ := by
  have past : (skipped ++ Bits.ofBytes (Bytes.littleEndian 2 bs.length
        ++ Bytes.littleEndian 2 (storeLimit - bs.length) ++ bs ++ tail)).length % 8
      = skipped.length := by
    rw [List.length_append, Bits.length_ofBytes]
    omega
  have size : bs.length % 2 ^ (8 * 2) = bs.length :=
    Nat.mod_eq_of_lt (by unfold storeLimit at limited; omega)
  have complement : (storeLimit - bs.length) % 2 ^ (8 * 2) = storeLimit - bs.length :=
    Nat.mod_eq_of_lt (by unfold storeLimit; omega)
  rw [readStored, past, List.drop_left, List.append_assoc, List.append_assoc, Bits.ofBytes_append,
    Bits.ofBytes_littleEndian, Bits.take?_low, size]
  simp only [Option.bind_eq_bind, Option.bind_some]
  rw [Bits.ofBytes_append, Bits.ofBytes_littleEndian, Bits.take?_low, complement]
  simp only [Option.bind_some]
  rw [if_neg (by unfold storeLimit at limited ⊢; omega), readOctets_ofBytes]

theorem readBlocks_storedBlock {bs : Bytes} (limited : bs.length ≤ storeLimit) (last : Bool)
    (tail : Bytes) (data : Array UInt8) (fuel : Nat) :
    readBlocks (fuel + 1) ⟨data, Bits.ofBytes (storedBlock last bs ++ tail)⟩
      = if last then some ⟨data ++ bs, Bits.ofBytes tail⟩
        else readBlocks fuel ⟨data ++ bs, Bits.ofBytes tail⟩ := by
  have parts : ∀ n, Bits.low 8 n = Bits.low 1 n ++ (Bits.low 2 (n / 2) ++ Bits.low 5 (n / 2 / 4)) :=
    fun n => by
      rw [show 8 = 1 + (2 + 5) from rfl, Bits.low_add, Bits.low_add]
      norm_num
  have few : ∀ n, (Bits.low 5 n).length < 8 := fun n => by rw [Bits.length_low]; decide
  have mark : ((if last then 1 else 0 : UInt8)).toNat = if last then 1 else 0 := by
    cases last <;> rfl
  rw [storedBlock, List.cons_append, Bits.ofBytes_cons, mark, parts, List.append_assoc,
    List.append_assoc, readBlocks, Bits.take?_low]
  simp only [Option.bind_eq_bind, Option.bind_some]
  rw [Bits.take?_low]
  simp only [Option.bind_some]
  have stored := readStored_storedBlock limited tail data
  cases last
  · have block := stored (Bits.low 5 (0 / 2 / 4)) (few _)
    simp only [readBlock, Bool.false_eq_true, if_false, Nat.zero_div, Nat.zero_mod] at block ⊢
    rw [block]
    simp
  · have block := stored (Bits.low 5 (1 / 2 / 4)) (few _)
    simp only [readBlock, if_true] at block ⊢
    rw [block]
    simp

theorem store_of_all {bs : Bytes} (all : bs.drop storeLimit = []) :
    store bs = storedBlock true bs := by
  rw [store]
  split
  · rfl
  · rename_i some
    cases all.symm.trans some

theorem store_of_more {bs rest : Bytes} {next : UInt8} (some : bs.drop storeLimit = next :: rest) :
    store bs = storedBlock false (bs.take storeLimit) ++ store (next :: rest) := by
  rw [store]
  split
  · rename_i all
    cases all.symm.trans some
  · rename_i some'
    obtain ⟨rfl, rfl⟩ := List.cons.inj (some.symm.trans some')
    rfl

/-- The blocks are read one by one, and each leaves fewer octets, and more fuel than these. -/
theorem readBlocks_store (bs tail : Bytes) (data : Array UInt8) {fuel : Nat}
    (enough : bs.length < fuel) :
    readBlocks fuel ⟨data, Bits.ofBytes (store bs ++ tail)⟩
      = some ⟨data ++ bs, Bits.ofBytes tail⟩ := by
  induction bs using store.induct generalizing data fuel with
  | case1 bs all =>
      obtain ⟨fuel, rfl⟩ := Nat.exists_eq_add_one_of_ne_zero (Nat.ne_of_gt (Nat.zero_lt_of_lt enough))
      have limited : bs.length ≤ storeLimit := List.drop_eq_nil_iff.mp all
      rw [store_of_all all, readBlocks_storedBlock limited]
      rfl
  | case2 bs next rest some ih =>
      obtain ⟨fuel, rfl⟩ := Nat.exists_eq_add_one_of_ne_zero (Nat.ne_of_gt (Nat.zero_lt_of_lt enough))
      have shorter : (next :: rest).length = bs.length - storeLimit := by
        rw [← some, List.length_drop]
      have positive : 0 < (next :: rest).length := by simp
      have left : (next :: rest).length < fuel := by
        unfold storeLimit at shorter
        omega
      have whole : data ++ bs.take storeLimit ++ (next :: rest) = data ++ bs := by
        apply Array.ext'
        simp [← some]
      rw [store_of_more some, List.append_assoc, readBlocks_storedBlock (List.length_take_le _ _),
        if_neg (by simp), ih _ left, whole]

theorem length_storedBlock (last : Bool) (bs : Bytes) :
    (storedBlock last bs).length = bs.length + 5 := by
  simp [storedBlock, Sha256.length_littleEndian]
  omega

theorem length_lt_store (bs : Bytes) : bs.length < (store bs).length := by
  induction bs using store.induct with
  | case1 bs all =>
      rw [store_of_all all, length_storedBlock]
      omega
  | case2 bs next rest some ih =>
      have parts : bs.length = (bs.take storeLimit).length + (next :: rest).length := by
        rw [← some, ← List.length_append, List.take_append_drop]
      rw [store_of_more some, List.length_append, length_storedBlock]
      omega

theorem read?_store (bs tail : Bytes) : read? (store bs ++ tail) = some (bs, tail) := by
  have long := length_lt_store bs
  have enough : bs.length < (Bits.ofBytes (store bs ++ tail)).length := by
    rw [Bits.length_ofBytes, List.length_append]
    omega
  have past : (store bs ++ tail).length - (Bits.ofBytes tail).length / 8 = (store bs).length := by
    rw [Bits.length_ofBytes, List.length_append]
    omega
  simp only [read?, readBlocks_store bs tail #[] enough, Option.bind_eq_bind, Option.bind_some, past]
  simp

end Deflate

namespace Gzip

theorem length_trailer (stream : Bytes) : (trailer stream).length = 8 := by
  simp [trailer, Sha256.length_littleEndian]

theorem body?_file (blocks stream : Bytes) :
    body? (file blocks stream) = some (blocks ++ trailer stream) := by
  simp [body?, file, header, Flags.ofOctet?, afterField?]

theorem contents?_file_store (stream : Bytes) :
    contents? (file (Deflate.store stream) stream) = some stream := by
  have whole : (trailer stream).take 8 = trailer stream :=
    List.take_of_length_le (Nat.le_of_eq (length_trailer stream))
  rw [contents?, body?_file]
  simp [Deflate.read?_store, whole]

/-- The stream of a file is what was put into it. -/
theorem contents?_wrap (stream : Bytes) : contents? (wrap stream) = some stream := by
  simp only [wrap]
  split
  · assumption
  · exact contents?_file_store stream

end Gzip
end StackSynth
