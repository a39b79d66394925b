import Mathlib
import StackSynth.Bytes.Utf8

/-!
# UTF-8 — the order of texts is the order of their octets

The octets of a text are those of its characters, one after another.  The leading octet of a
character tells how many follow it and holds its highest digits, so that comparing octets is
comparing characters.

* `Utf8.encode_append`, `Utf8.encode_ofList` — encoding character by character;
* `Utf8.encode_lt_iff` — texts and their octets are ordered alike.
-/

namespace StackSynth
namespace Utf8

/-! ## Character by character -/

theorem encode_eq (text : String) : encode text = text.toList.flatMap String.utf8EncodeChar := by
  have octets : text.toByteArray = text.toList.utf8Encode := String.utf8Encode_toList.symm
  rw [encode, String.toUTF8, octets, List.utf8Encode]
  simp

theorem encode_ofList (cs : List Char) :
    encode (String.ofList cs) = cs.flatMap String.utf8EncodeChar := by
  rw [encode_eq, String.toList_ofList]

theorem encode_inj {a b : String} (same : encode a = encode b) : a = b := by
  have read := congrArg decode? same
  simpa only [decode?_encode, Option.some.injEq] using read

theorem encode_append (a b : String) : encode (a ++ b) = encode a ++ encode b := by
  simp [encode_eq]

/-! ## Order -/

/-- Of two numbers, the greater one is greater in its high digits, or in its last one. -/
theorem digits_lt {m n : Nat} (base : Nat) (below : m < n) :
    m / base < n / base ∨ m / base = n / base ∧ m % base < n % base := by
  rcases Nat.lt_or_ge (m / base) (n / base) with less | notLess
  · exact Or.inl less
  · have same : m / base = n / base := Nat.le_antisymm (Nat.div_le_div_right (Nat.le_of_lt below)) notLess
    have high := Nat.div_add_mod m base
    rw [same] at high
    have whole := Nat.div_add_mod n base
    exact Or.inr ⟨same, by omega⟩

theorem encodeChar_lt {c d : Char} (less : c < d) (r s : Bytes) :
    String.utf8EncodeChar c ++ r < String.utf8EncodeChar d ++ s := by
  have below : c.val.toNat < d.val.toNat := less
  have limit : d.val.toNat < 0x110000 := by
    have valid := d.valid
    simp only [UInt32.isValidChar, Nat.isValidChar] at valid
    omega
  unfold String.utf8EncodeChar
  generalize c.val.toNat = m at *
  generalize d.val.toNat = n at *
  clear less
  have lead4 (k : Nat) : (k % 8 + 240) % 2 ^ 8 = k % 8 + 240 := by omega
  have lead3 (k : Nat) : (k % 16 + 224) % 2 ^ 8 = k % 16 + 224 := by omega
  have lead2 (k : Nat) : (k % 32 + 192) % 2 ^ 8 = k % 32 + 192 := by omega
  have tail (k : Nat) : (k % 64 + 128) % 2 ^ 8 = k % 64 + 128 := by omega
  simp only
  -- One case for each pair of lengths; the lengths of the smaller and the greater character.
  split <;> split <;> (try split) <;> (try split) <;> (try split) <;> (try split)
  all_goals
    simp only [List.cons_append, List.nil_append, List.cons_lt_cons_iff, UInt8.lt_iff_toNat_lt,
      ← UInt8.toNat_inj, UInt8.toNat_ofNat', lead4, lead3, lead2, tail,
      Nat.add_lt_add_iff_right, Nat.add_right_cancel_iff]
    clear lead4 lead3 lead2 tail
  all_goals try omega
  -- Both have four octets: the digits are compared from the last one up.
  have div4096 (k : Nat) : k / 4096 = k / 64 / 64 := by omega
  have div262144 (k : Nat) : k / 262144 = k / 64 / 64 / 64 := by omega
  have small (k : Nat) (limit : k < 0x110000) : k / 64 / 64 / 64 % 8 = k / 64 / 64 / 64 := by omega
  rw [div4096, div4096, div262144, div262144, small m (by omega), small n limit]
  rcases digits_lt 64 below with first | ⟨same₁, first⟩
  · rcases digits_lt 64 first with second | ⟨same₂, second⟩
    · rcases digits_lt 64 second with third | ⟨same₃, third⟩
      · exact Or.inl third
      · exact Or.inr ⟨same₃, Or.inl third⟩
    · rw [same₂]
      exact Or.inr ⟨rfl, Or.inr ⟨rfl, Or.inl second⟩⟩
  · rw [same₁]
    exact Or.inr ⟨rfl, Or.inr ⟨rfl, Or.inr ⟨rfl, Or.inl first⟩⟩⟩

theorem encodeChars_lt {cs ds : List Char} (less : cs < ds) :
    cs.flatMap String.utf8EncodeChar < ds.flatMap String.utf8EncodeChar := by
  induction cs generalizing ds with
  | nil =>
      cases ds with
      | nil => exact absurd less (List.lt_irrefl _)
      | cons d ds =>
          obtain ⟨b, bs, known⟩ := List.exists_cons_of_ne_nil
            (String.utf8EncodeChar_ne_nil (c := d))
          simp [known]
  | cons c cs ih =>
      cases ds with
      | nil => exact absurd less (List.not_lt_nil _)
      | cons d ds =>
          rcases List.cons_lt_cons_iff.mp less with first | ⟨rfl, rest⟩
          · exact encodeChar_lt first _ _
          · exact List.append_left_lt (ih rest)

theorem encode_lt_iff {a b : String} : encode a < encode b ↔ a < b := by
  have keeps : ∀ {a b : String}, a < b → encode a < encode b := by
    intro a b less
    rw [encode_eq, encode_eq]
    exact encodeChars_lt (String.lt_iff.mp less)
  constructor
  · intro octets
    by_cases less : a < b
    · exact less
    · by_cases same : a = b
      · exact absurd (same ▸ octets) (List.lt_irrefl _)
      · have greater : b < a := by
          by_cases h : b < a
          · exact h
          · exact absurd (String.le_antisymm (String.not_lt.mp h) (String.not_lt.mp less)) same
        exact absurd (keeps greater) (List.lt_asymm octets)
  · exact keeps

theorem encode_le_iff {a b : String} : encode a ≤ encode b ↔ a ≤ b := by
  rw [← List.not_lt, encode_lt_iff, String.not_lt]

end Utf8
end StackSynth
