import Mathlib
import StackSynth.Listing
import StackSynth.Proofs.Utf8

/-!
# Encoding — what is hashed can be read in one way only

`Member.encoding` writes records one after another without anything in between.  A record tells
its own end: the mark says whether there is a content, and the eight octets in front of a field
say how long it is.  So the encoding of a list of members determines the list.

* `Member.Fits` — the lengths of a member can be told in eight octets;
* `Member.record_append_inj` — a record can be split from whatever follows it;
* `Member.encoding_inj` — the same for whole lists;
* `digests_differ_or_collide` — equal digests mean equal members or a collision of SHA-256.
-/

namespace StackSynth

namespace Bytes

/-! ## Numbers and hexadecimal -/

theorem ofLittleEndian_littleEndian (width n : Nat) :
    ofLittleEndian (littleEndian width n) = n % 256 ^ width := by
  induction width generalizing n with
  | zero => simp [littleEndian, ofLittleEndian, Nat.mod_one]
  | succ width ih =>
      have low : (UInt8.ofNat (n % 256)).toNat = n % 256 := by
        simp [UInt8.toNat_ofNat']
      have power : 256 ^ (width + 1) = 256 * 256 ^ width := Nat.pow_succ'
      rw [littleEndian, ofLittleEndian, low, ih, power, Nat.mod_mul]

/-- A number that fits is determined by its octets. -/
theorem littleEndian_inj {width m n : Nat} (fitsM : m < 256 ^ width) (fitsN : n < 256 ^ width)
    (same : littleEndian width m = littleEndian width n) : m = n := by
  have values := congrArg ofLittleEndian same
  simpa only [ofLittleEndian_littleEndian, Nat.mod_eq_of_lt fitsM, Nat.mod_eq_of_lt fitsN]
    using values

theorem hexValue?_hexDigit (n : Nat) (small : n < 16) : hexValue? (hexDigit n) = some n := by
  have all : ∀ k : Fin 16, hexValue? (hexDigit k) = some k.val := by decide
  exact all ⟨n, small⟩

theorem ofHexDigits?_hexDigits (bs : Bytes) : ofHexDigits? (hexDigits bs) = some bs := by
  induction bs with
  | nil => rfl
  | cons b bs ih =>
      have small : b.toNat < 256 := b.toNat_lt
      have high := hexValue?_hexDigit (b.toNat / 16) (by omega)
      have low := hexValue?_hexDigit (b.toNat % 16) (by omega)
      have octet : UInt8.ofNat (16 * (b.toNat / 16) + b.toNat % 16) = b := by
        rw [Nat.div_add_mod, UInt8.ofNat_toNat]
      simp only [hexDigits, ofHexDigits?, high, low, ih, Option.bind_eq_bind, Option.bind_some,
        octet]
      rfl

theorem hex_inj {a b : Bytes} (same : hex a = hex b) : a = b := by
  have digits : hexDigits a = hexDigits b := by
    simpa [hex] using congrArg String.toList same
  have read := congrArg ofHexDigits? digits
  simpa only [ofHexDigits?_hexDigits, Option.some.injEq] using read

end Bytes

theorem ContentHash.ofContent_eq_iff {a b : Bytes} :
    ContentHash.ofContent a = ContentHash.ofContent b ↔ Sha256.digest a = Sha256.digest b := by
  constructor
  · intro same
    have text : mark ++ Bytes.hex (Sha256.digest a) = mark ++ Bytes.hex (Sha256.digest b) :=
      congrArg ContentHash.text same
    exact Bytes.hex_inj (String.append_right_inj mark |>.mp text)
  · intro same
    rw [ofContent, ofContent, same]

/-- Two different messages with one digest. -/
def Sha256.Collision (a b : Bytes) : Prop :=
  a ≠ b ∧ Sha256.digest a = Sha256.digest b

namespace Member

/-! ## Records -/

/-- The lengths of the name and of the content can be told in eight octets. -/
def Fits : Member → Prop
  | .directory name => (Utf8.encode name).length < 2 ^ 64
  | .file name _ content => (Utf8.encode name).length < 2 ^ 64 ∧ content.length < 2 ^ 64

theorem Fits.name {member : Member} (fits : member.Fits) :
    (Utf8.encode member.name).length < 2 ^ 64 := by
  cases member with
  | directory name => exact fits
  | file name executable content => exact fits.1

/-- Octets behind their length can be split from whatever follows them. -/
theorem sized_append_inj {x y r s : Bytes} (fitsX : x.length < 2 ^ 64) (fitsY : y.length < 2 ^ 64)
    (same : sized x ++ r = sized y ++ s) : x = y ∧ r = s := by
  simp only [sized, List.append_assoc] at same
  obtain ⟨lengths, rest⟩ := List.append_inj same (by simp [Sha256.length_littleEndian])
  have length : x.length = y.length := Bytes.littleEndian_inj fitsX fitsY lengths
  exact List.append_inj rest length

/-- The mark of a record tells the kind of its member. -/
theorem mark_eq_iff (m n : Member) :
    m.mark = n.mark ↔
      match m, n with
      | .directory _, .directory _ => True
      | .file _ x _, .file _ y _ => x = y
      | _, _ => False := by
  cases m with
  | directory name =>
      cases n with
      | directory other => simp [mark]
      | file other x content => cases x <;> simp [mark, directoryMark, plainMark, programMark]
  | file name x content =>
      cases n with
      | directory other => cases x <;> simp [mark, directoryMark, plainMark, programMark]
      | file other y content' =>
          cases x <;> cases y <;> simp [mark, plainMark, programMark]

theorem record_append_inj {m n : Member} {r s : Bytes} (fitsM : m.Fits) (fitsN : n.Fits)
    (same : m.record ++ r = n.record ++ s) : m = n ∧ r = s := by
  simp only [record, List.cons_append, List.append_assoc, List.cons.injEq] at same
  obtain ⟨marks, fields⟩ := same
  -- Each part tells its own length, so that one after another can be taken off.
  obtain ⟨names, rest⟩ := sized_append_inj fitsM.name fitsN.name fields
  have name : m.name = n.name := Utf8.encode_inj names
  have kinds := (mark_eq_iff m n).mp marks
  cases m with
  | directory a =>
      cases n with
      | directory b =>
          obtain rfl : a = b := name
          exact ⟨rfl, by simpa using rest⟩
      | file b y content' => exact kinds.elim
  | file a x content =>
      cases n with
      | directory b => exact kinds.elim
      | file b y content' =>
          obtain rfl : a = b := name
          obtain rfl : x = y := kinds
          obtain ⟨contents, after⟩ := sized_append_inj fitsM.2 fitsN.2 rest
          exact ⟨by rw [contents], after⟩

/-! ## Lists of members -/

theorem record_ne_nil (m : Member) : m.record ≠ [] := by
  simp [record]

theorem encoding_cons (m : Member) (ms : List Member) :
    encoding (m :: ms) = m.record ++ encoding ms := by
  simp [encoding]

theorem encoding_inj {a b : List Member} (fitsA : ∀ m ∈ a, m.Fits) (fitsB : ∀ m ∈ b, m.Fits)
    (same : encoding a = encoding b) : a = b := by
  induction a generalizing b with
  | nil =>
      cases b with
      | nil => rfl
      | cons n ns =>
          rw [encoding_cons] at same
          exact absurd (List.append_eq_nil_iff.mp same.symm).1 n.record_ne_nil
  | cons m ms ih =>
      cases b with
      | nil =>
          rw [encoding_cons] at same
          exact absurd (List.append_eq_nil_iff.mp same).1 m.record_ne_nil
      | cons n ns =>
          simp only [List.forall_mem_cons] at fitsA fitsB
          rw [encoding_cons, encoding_cons] at same
          -- The first records are the same, and so are the encodings of the rest.
          obtain ⟨rfl, rest⟩ := record_append_inj fitsA.1 fitsB.1 same
          rw [ih fitsA.2 fitsB.2 rest]

end Member

/-! ## Digests -/

/-- A listing is hashed as the encoding of the members that it has now. -/
theorem Listing.digest_eq_ok {fs : FileSystem} {entries : List Entry} {members : List Member}
    (now : entries.mapM (Entry.unchanged fs) = .ok members) :
    Listing.digest fs entries = .ok (ContentHash.ofContent (Member.encoding members)) := by
  rw [Listing.digest, now]
  rfl

/-- Different lists of members have different encodings, and two listings have one digest only if
they have the same members now, or else by a collision. -/
theorem digests_differ_or_collide {a b : List Member} (fitsA : ∀ m ∈ a, m.Fits)
    (fitsB : ∀ m ∈ b, m.Fits) :
    (Member.encoding a = Member.encoding b ↔ a = b) ∧
      ∀ (fs fs' : FileSystem) (entries entries' : List Entry),
        entries.mapM (Entry.unchanged fs) = .ok a → entries'.mapM (Entry.unchanged fs') = .ok b →
        Listing.digest fs entries = Listing.digest fs' entries' →
        a = b ∨ Sha256.Collision (Member.encoding a) (Member.encoding b) := by
  refine ⟨⟨Member.encoding_inj fitsA fitsB, congrArg Member.encoding⟩, ?_⟩
  intro fs fs' entries entries' nowA nowB same
  rw [Listing.digest_eq_ok nowA, Listing.digest_eq_ok nowB] at same
  have digests := ContentHash.ofContent_eq_iff.mp (Except.ok.inj same)
  by_cases equal : Member.encoding a = Member.encoding b
  · exact Or.inl (Member.encoding_inj fitsA fitsB equal)
  · exact Or.inr ⟨equal, digests⟩

/-- An octet at the boundary of name and content belongs to one of them. -/
theorem encoding_tells_boundary :
    Member.encoding [.file "ab" false [99]] ≠ Member.encoding [.file "a" false [98, 99]] := by
  intro same
  have fitsA : ∀ m ∈ [Member.file "ab" false [99]], m.Fits := by simp [Member.Fits]; decide
  have fitsB : ∀ m ∈ [Member.file "a" false [98, 99]], m.Fits := by simp [Member.Fits]; decide
  have equal := (digests_differ_or_collide fitsA fitsB).1.mp same
  simp at equal

end StackSynth
