import Mathlib.Tactic.NormNum
import StackSynth.Listing
import StackSynth.Proofs.Path
import StackSynth.Proofs.Utf8

/-!
# Display — a name for readers is a name

What replaces ill-formed octets of a name is outside of ASCII, and so are the characters that
several octets stand for.  So the display of a name has neither a slash nor a zero in it, and is
one of the dot names only if the name is.

* `Utf8.encode_of_decode?` — decoding finds the text of just these octets;
* `Utf8.piece_char` — a character of a display is an octet of its own or outside of ASCII;
* `Name.displayed` — the display of a name as a name;
* `Path.childText_shown` — a path below another one by the text of its names.
-/

namespace StackSynth
namespace Utf8

/-! ## Decoding -/

theorem encode_of_decode? {bs : Bytes} {text : String} (read : decode? bs = some text) :
    encode text = bs := by
  unfold decode? String.fromUTF8? at read
  split at read
  · cases read
    simp [encode, pack, String.fromUTF8]
  · cases read

/-! ## Characters of a display -/

theorem toNat_ofNat_char {n : Nat} (valid : n < 0xD800 ∨ 0xDFFF < n ∧ n < 0x110000) :
    (Char.ofNat n).toNat = n := by
  have known : n.isValidChar := valid
  simp [Char.ofNat, known, Char.toNat, Char.ofNatAux]

/-- The first of some continuing octets lies in its range, and the others are such octets. -/
theorem tailRun_cons {count : Nat} {low high t : UInt8} {bs more : Bytes}
    (run : tailRun count low high bs = t :: more) :
    low ≤ t ∧ t ≤ high := by
  cases bs with
  | nil => cases run
  | cons b bs =>
      rw [tailRun] at run
      by_cases none : count = 0
      · simp [none] at run
      · by_cases inRange : (low ≤ b && b ≤ high) = true
        · simp only [none, inRange, if_true, if_false] at run
          obtain ⟨rfl, -⟩ := List.cons.inj run
          simpa using inRange
        · simp [none, inRange] at run

/-- What a leading octet announces. -/
theorem lead?_cases {b : UInt8} {count : Nat} {low high : UInt8}
    (known : lead? b = some (count, low, high)) :
    (0x80 ≤ low.toNat ∧ high.toNat ≤ 0xBF) ∧ (count = 0 ∧ b.toNat < 0x80
      ∨ count = 1 ∧ 0xC2 ≤ b.toNat ∧ b.toNat ≤ 0xDF
      ∨ count = 2 ∧ (b.toNat = 0xE0 ∧ low.toNat = 0xA0 ∨ b.toNat = 0xED ∧ high.toNat = 0x9F
          ∨ 0xE1 ≤ b.toNat ∧ b.toNat ≤ 0xEF ∧ b.toNat ≠ 0xED)
      ∨ count = 3 ∧ (b.toNat = 0xF0 ∧ low.toNat = 0x90 ∨ 0xF1 ≤ b.toNat ∧ b.toNat ≤ 0xF3
          ∨ b.toNat = 0xF4 ∧ high.toNat = 0x8F)) := by
  unfold lead? at known
  simp only [Bool.and_eq_true, decide_eq_true_eq, beq_iff_eq, UInt8.lt_iff_toNat_lt,
    UInt8.le_iff_toNat_le, ← UInt8.toNat_inj, UInt8.reduceToNat] at known
  repeat' split at known
  all_goals cases known
  all_goals
    simp
    omega

/-- A whole character from several octets is outside of ASCII. -/
theorem several_octets {b low high : UInt8} {count : Nat} {bs : Bytes}
    (known : lead? b = some (count, low, high)) (some : count ≠ 0)
    (whole : (tailRun count low high bs).length = count) :
    0x80 ≤ (Char.ofNat ((tailRun count low high bs).foldl (fun n t => n * 64 + t.toNat % 64)
      (b.toNat % Nat.pow 2 (6 - count)))).toNat := by
  have cases' := lead?_cases known
  generalize run : tailRun count low high bs = octets at whole ⊢
  have inRange : ∀ t more, octets = t :: more → low.toNat ≤ t.toNat ∧ t.toNat ≤ high.toNat := by
    rintro t more rfl
    exact tailRun_cons run
  have valid : ∀ {n : Nat}, 0x80 ≤ n → (n < 0xD800 ∨ 0xDFFF < n ∧ n < 0x110000) →
      0x80 ≤ (Char.ofNat n).toNat := fun large valid => by rwa [toNat_ofNat_char valid]
  -- Two, three or four octets.
  match octets, whole with
  | [], whole => exact absurd whole.symm some
  | [t], whole =>
      obtain rfl : count = 1 := whole.symm
      simp only [List.foldl_cons, List.foldl_nil]
      norm_num at cases' ⊢
      apply valid <;> omega
  | [t, u], whole =>
      obtain rfl : count = 2 := whole.symm
      have first := inRange t [u] rfl
      have small := t.toNat_lt
      simp only [List.foldl_cons, List.foldl_nil]
      norm_num at cases' ⊢
      apply valid <;> omega
  | [t, u, v], whole =>
      obtain rfl : count = 3 := whole.symm
      have first := inRange t [u, v] rfl
      have small := t.toNat_lt
      simp only [List.foldl_cons, List.foldl_nil]
      norm_num at cases' ⊢
      apply valid <;> omega
  | t :: u :: v :: w :: more, whole =>
      simp only [List.length_cons] at whole
      omega

theorem piece_char (b : UInt8) (bs : Bytes) :
    0x80 ≤ ((piece b bs).1.getD '\uFFFD').toNat
      ∨ ((piece b bs).1.getD '\uFFFD').toNat = b.toNat ∧ (piece b bs).2 = 0 := by
  have replacement : 0x80 ≤ '\uFFFD'.toNat := by decide
  unfold piece
  cases known : lead? b with
  | none => exact Or.inl replacement
  | some found =>
      obtain ⟨count, low, high⟩ := found
      simp only
      split
      · rename_i whole
        -- A single octet is itself, and several ones have a greater number.
        by_cases alone : count = 0
        · right
          subst alone
          have small : b.toNat < 0x80 := by
            have cases' := lead?_cases known
            omega
          rw [List.length_eq_zero_iff] at whole
          simp only [whole, List.foldl_nil, if_true, Option.getD_some, and_true]
          exact toNat_ofNat_char (Or.inl (by omega))
        · left
          simpa [alone] using several_octets known alone whole
      · exact Or.inl replacement

/-- The characters of a display. -/
def shows (bs : Bytes) : List Char :=
  (pieces bs).map (·.getD '\uFFFD')

theorem shows_cons (b : UInt8) (bs : Bytes) :
    shows (b :: bs) = (piece b bs).1.getD '\uFFFD' :: shows (bs.drop (piece b bs).2) := by
  rw [shows, pieces]
  rfl

theorem mem_shows {bs : Bytes} {c : Char} (member : c ∈ shows bs) :
    0x80 ≤ c.toNat ∨ ∃ b ∈ bs, c.toNat = b.toNat := by
  induction bs using pieces.induct with
  | case1 => simp [shows, pieces] at member
  | case2 b bs ih =>
      rw [shows_cons] at member
      rcases List.mem_cons.mp member with rfl | member
      · rcases piece_char b bs with large | ⟨same, -⟩
        · exact Or.inl large
        · exact Or.inr ⟨b, by simp, same⟩
      · rcases ih member with large | ⟨other, inside, same⟩
        · exact Or.inl large
        · exact Or.inr ⟨other, List.mem_cons_of_mem b (List.mem_of_mem_drop inside), same⟩

/-- A display in ASCII shows the octets one by one. -/
theorem shows_ascii {bs : Bytes} (ascii : ∀ c ∈ shows bs, c.toNat < 0x80) :
    (shows bs).map Char.toNat = bs.map UInt8.toNat := by
  induction bs using pieces.induct with
  | case1 => simp [shows, pieces]
  | case2 b bs ih =>
      rw [shows_cons] at ascii ⊢
      simp only [List.forall_mem_cons] at ascii
      rcases piece_char b bs with large | ⟨same, none⟩
      · omega
      · rw [none, List.drop_zero] at ascii ih ⊢
        rw [List.map_cons, List.map_cons, same, ih ascii.2]

/-! ## Octets of a display -/

theorem octet_of_large {c : Char} (large : 0x80 ≤ c.toNat) {x : UInt8}
    (member : x ∈ String.utf8EncodeChar c) : 0x80 ≤ x.toNat := by
  have large' : 0x80 ≤ c.val.toNat := large
  have limit : c.val.toNat < 0x110000 := by
    have valid := c.valid
    simp only [UInt32.isValidChar, Nat.isValidChar] at valid
    omega
  unfold String.utf8EncodeChar at member
  simp only at member
  split at member
  · omega
  · repeat' split at member
    all_goals
      simp only [List.mem_cons, List.not_mem_nil, or_false] at member
      rcases member with rfl | member
      · rw [UInt8.toNat_ofNat']
        omega
      · rcases member with rfl | rfl | rfl <;> rw [UInt8.toNat_ofNat'] <;> omega

theorem utf8EncodeChar_of_ascii {c : Char} (ascii : c.toNat < 0x80) :
    String.utf8EncodeChar c = [UInt8.ofNat c.toNat] := by
  have ascii' : c.val.toNat ≤ 127 := Nat.le_of_lt_succ ascii
  unfold String.utf8EncodeChar
  simp only [ascii', if_true]
  rfl

/-- An octet of the text of a display is one of those displayed, or outside of ASCII. -/
theorem mem_encode_shows {bs : Bytes} {x : UInt8} (member : x ∈ encode (String.ofList (shows bs))) :
    0x80 ≤ x.toNat ∨ x ∈ bs := by
  rw [encode_ofList] at member
  obtain ⟨c, known, octet⟩ := List.mem_flatMap.mp member
  by_cases ascii : c.toNat < 0x80
  · rw [utf8EncodeChar_of_ascii ascii, List.mem_singleton] at octet
    rcases mem_shows known with large | ⟨b, inside, same⟩
    · omega
    · right
      rw [octet, same, UInt8.ofNat_toNat]
      exact inside
  · exact Or.inl (octet_of_large (Nat.le_of_not_lt ascii) octet)

theorem mem_encode_display {bs : Bytes} {x : UInt8} (member : x ∈ encode (display bs)) :
    0x80 ≤ x.toNat ∨ x ∈ bs := by
  unfold display at member
  cases read : decode? bs with
  | some text =>
      rw [read] at member
      right
      rw [← encode_of_decode? read]
      exact member
  | none =>
      rw [read] at member
      exact mem_encode_shows member

/-- Characters in ASCII are encoded as one octet each. -/
theorem flatMap_utf8EncodeChar {cs : List Char} (small : ∀ c ∈ cs, c.toNat < 0x80) :
    cs.flatMap String.utf8EncodeChar = (cs.map Char.toNat).map UInt8.ofNat := by
  induction cs with
  | nil => rfl
  | cons c cs ih =>
      simp only [List.forall_mem_cons] at small
      rw [List.flatMap_cons, utf8EncodeChar_of_ascii small.1, ih small.2]
      rfl

/-- A display that is a text in ASCII is the display of this very text. -/
theorem encode_display_ascii {bs : Bytes} (ascii : ∀ x ∈ encode (display bs), x.toNat < 0x80) :
    encode (display bs) = bs := by
  unfold display at ascii ⊢
  cases read : decode? bs with
  | some text => exact encode_of_decode? read
  | none =>
      rw [read] at ascii
      -- In a display with replacements there is something that is not ASCII.
      have chars : ∀ c ∈ shows bs, c.toNat < 0x80 := by
        intro c member
        by_contra large
        obtain ⟨x, rest, known⟩ := List.exists_cons_of_ne_nil (String.utf8EncodeChar_ne_nil (c := c))
        have inside : x ∈ encode (String.ofList (shows bs)) := by
          rw [encode_ofList]
          exact List.mem_flatMap.mpr ⟨c, member, by rw [known]; simp⟩
        have octet := octet_of_large (Nat.le_of_not_lt large) (known ▸ List.mem_cons_self)
        have small := ascii x inside
        omega
      have octets : (bs.map UInt8.toNat).map UInt8.ofNat = bs := by
        simp [Function.comp_def]
      show encode (String.ofList (shows bs)) = bs
      rw [encode_ofList, flatMap_utf8EncodeChar chars, shows_ascii chars, octets]

end Utf8

/-! ## Names -/

namespace Name

/-- The display of a name, which is a name again. -/
def displayed (name : Name) : Name where
  bytes := Utf8.encode name.display
  valid := by
    have octets : ∀ x ∈ Utf8.encode name.display, x ≠ slash ∧ x ≠ 0 := by
      intro x member
      rcases Utf8.mem_encode_display member with large | inside
      · constructor <;> rintro rfl <;> simp [slash] at large
      · exact name.isPlain_of_mem inside
    -- An empty display, or one of dots, would be in ASCII and so the name itself.
    have same : (∀ x ∈ Utf8.encode name.display, x.toNat < 0x80) →
        Utf8.encode name.display = name.bytes := Utf8.encode_display_ascii
    have some : Utf8.encode name.display ≠ [] := by
      intro none
      exact name.bytes_ne_nil ((same (by simp [none])).symm.trans none)
    have noDot : Utf8.encode name.display ≠ [dot] := by
      intro dotted
      exact name.bytes_ne_dot ((same (by simp [dotted, dot])).symm.trans dotted)
    have noDots : Utf8.encode name.display ≠ [dot, dot] := by
      intro dotted
      exact name.bytes_ne_dots ((same (by simp [dotted, dot])).symm.trans dotted)
    simp only [isName, Bool.and_eq_true, List.all_eq_true, Bool.not_eq_true', bne_iff_ne, ne_eq]
    exact ⟨⟨⟨by simpa using some, fun x member => by simpa using octets x member⟩, noDot⟩, noDots⟩

@[simp] theorem displayed_bytes (name : Name) :
    name.displayed.bytes = Utf8.encode name.display := rfl

end Name

/-! ## Paths below another one -/

theorem Utf8.encode_joinWith (texts : List String) :
    Utf8.encode (Text.joinWith "/" texts) = Bytes.joinWith slash (texts.map Utf8.encode) := by
  induction texts with
  | nil => decide +kernel
  | cons text rest ih =>
      cases rest with
      | nil => rfl
      | cons next rest =>
          have mark : Utf8.encode "/" = [slash] := by decide +kernel
          have joined : Bytes.joinWith slash ((text :: next :: rest).map Utf8.encode)
              = Utf8.encode text ++ slash :: Bytes.joinWith slash ((next :: rest).map Utf8.encode) :=
            rfl
          rw [joined, ← ih, Text.joinWith, Utf8.encode_append, Utf8.encode_append, mark]
          · simp
          · simp

namespace Path

theorem child_join {p q : Path} {name : Name} (relative : q.isAbsolute = false) :
    (p.child name).join q = ⟨(p.child name).bytes ++ slash :: q.bytes⟩ := by
  have last : ¬ ((p.child name).bytes.getLast? == some slash) = true := by
    have wants := p.child_wantsDirectory name
    simpa [wantsDirectory] using wants
  rw [join, relative, p.child_not_empty name, if_neg (by simp), if_neg last]

/-- A path below another one as text leads down through the names that the text joins. -/
theorem childText_eq_descend {text : String} {names : List Name} (some : names ≠ [])
    (known : Utf8.encode text = Bytes.joinWith slash (names.map Name.bytes)) (p : Path) :
    p.childText text = p.descend names := by
  show p.join ⟨Utf8.encode text⟩ = p.descend names
  rw [known]
  clear known
  -- What is joined begins with a name, and so it is relative.
  have relative : ∀ (name : Name) (more : Bytes), isAbsolute ⟨name.bytes ++ more⟩ = false := by
    intro name more
    obtain ⟨b, bs, spelled⟩ := List.exists_cons_of_ne_nil name.bytes_ne_nil
    have plain : b ≠ slash := (name.isPlain_of_mem (spelled ▸ List.mem_cons_self)).1
    simpa [isAbsolute, spelled] using plain
  induction names generalizing p with
  | nil => exact absurd rfl some
  | cons name rest ih =>
      cases rest with
      | nil =>
          have alone : isAbsolute ⟨name.bytes⟩ = false := by simpa using relative name []
          show p.join ⟨name.bytes⟩ = p.child name
          rw [join, child, alone, Bool.false_or]
      | cons next rest =>
          have joined : Bytes.joinWith slash ((name :: next :: rest).map Name.bytes)
              = name.bytes ++ slash :: Bytes.joinWith slash ((next :: rest).map Name.bytes) := rfl
          rw [descend_cons, ← ih (by simp), joined]
          have inner : isAbsolute ⟨Bytes.joinWith slash ((next :: rest).map Name.bytes)⟩ = false := by
            cases rest with
            | nil => simpa [Bytes.joinWith] using relative next []
            | cons third rest => exact relative next _
          rw [child_join inner, join, relative, Bool.false_or, child_bytes]
          split
          · rfl
          · split <;> simp

theorem childText_shown (p : Path) {names : List Name} (some : names ≠ []) :
    p.childText (Listing.shown names) = p.descend (names.map Name.displayed) := by
  refine childText_eq_descend (by simpa using some) ?_ p
  rw [Listing.shown, Utf8.encode_joinWith]
  simp [Function.comp_def]

end Path
end StackSynth
