import StackSynth.Artifact
import StackSynth.Proofs.Ancestors
import StackSynth.Proofs.Display

/-!
# Artifact — the names under which artifacts are staged

The short form of the hash of some content is sixteen hexadecimal digits, and the name of the
artifact begins with them.  What follows comes from the name of the source and holds neither a
slash nor a zero.  So both can name objects, and the path of an artifact is two names down.

* `ContentHash.short?_ofContent` — the short form of a hash;
* `Artifact.nameFor_name` — the name of an artifact is a name;
* `Artifact.stagedAt_inj` — the path of an artifact tells both names.
-/

namespace StackSynth

/-! ## Hexadecimal digits -/

namespace Bytes

/-- A digit of a hash. -/
def IsHexChar (c : Char) : Prop :=
  '0' ≤ c ∧ c ≤ '9' ∨ 'a' ≤ c ∧ c ≤ 'f'

theorem isHexChar_hexDigit {n : Nat} (small : n < 16) : IsHexChar (hexDigit n) := by
  have all : ∀ k : Fin 16, '0' ≤ hexDigit k ∧ hexDigit k ≤ '9'
      ∨ 'a' ≤ hexDigit k ∧ hexDigit k ≤ 'f' := by
    decide
  exact all ⟨n, small⟩

theorem isHexChar_of_mem {bs : Bytes} {c : Char} (member : c ∈ hexDigits bs) : IsHexChar c := by
  induction bs with
  | nil => cases member
  | cons b bs ih =>
      have small := b.toNat_lt
      rw [hexDigits] at member
      rcases List.mem_cons.mp member with rfl | member
      · exact isHexChar_hexDigit (by omega)
      · rcases List.mem_cons.mp member with rfl | member
        · exact isHexChar_hexDigit (by omega)
        · exact ih member

theorem length_hexDigits (bs : Bytes) : (hexDigits bs).length = 2 * bs.length := by
  induction bs with
  | nil => rfl
  | cons b bs ih =>
      rw [hexDigits, List.length_cons, List.length_cons, ih, List.length_cons]
      omega

theorem IsHexChar.ascii {c : Char} (hex : IsHexChar c) : c.toNat < 0x80 := by
  rcases hex with ⟨-, below⟩ | ⟨-, below⟩
  · exact Nat.lt_of_le_of_lt below (by decide)
  · exact Nat.lt_of_le_of_lt below (by decide)

end Bytes

theorem Utf8.encode_ofList_ascii {cs : List Char} (ascii : ∀ c ∈ cs, c.toNat < 0x80) :
    encode (String.ofList cs) = cs.map fun c => UInt8.ofNat c.toNat := by
  rw [encode_ofList, flatMap_utf8EncodeChar ascii, List.map_map]
  rfl

namespace ContentHash

theorem hex_ofContent (content : Bytes) :
    (ofContent content).hex = Bytes.hex (Sha256.digest content) := by
  have shape : (ofContent content).text.toList
      = mark.toList ++ (Bytes.hex (Sha256.digest content)).toList := by
    simp [ofContent]
  have isMarked : marked (ofContent content).text = true := by
    rw [marked, shape, List.isPrefixOf_iff_prefix]
    exact List.prefix_append _ _
  rw [hex, if_pos isMarked, shape, List.drop_left, String.ofList_toList]

/-- The first digits of the hash of some content. -/
def shortDigits (content : Bytes) : List Char :=
  (Bytes.hexDigits (Sha256.digest content)).take shortLength

theorem isHexChar_shortDigits {content : Bytes} {c : Char} (member : c ∈ shortDigits content) :
    Bytes.IsHexChar c :=
  Bytes.isHexChar_of_mem (List.mem_of_mem_take member)

theorem length_shortDigits (content : Bytes) : (shortDigits content).length = shortLength := by
  rw [shortDigits, List.length_take, Bytes.length_hexDigits, Sha256.length_digest]
  decide

theorem short?_ofContent (content : Bytes) :
    (ofContent content).short? = some (String.ofList (shortDigits content)) := by
  have ascii : ∀ c ∈ Bytes.hexDigits (Sha256.digest content), c.toNat < 0x80 := fun c member =>
    (Bytes.isHexChar_of_mem member).ascii
  have front : ∀ c ∈ shortDigits content, c.toNat < 0x80 := fun c member =>
    ascii c (List.mem_of_mem_take member)
  have octets : (Utf8.encode (Bytes.hex (Sha256.digest content))).take shortLength
      = Utf8.encode (String.ofList (shortDigits content)) := by
    rw [Bytes.hex, Utf8.encode_ofList_ascii ascii, Utf8.encode_ofList_ascii front, shortDigits,
      List.map_take]
  rw [short?, hex_ofContent, octets, Utf8.decode?_encode]

theorem shortOf_ofContent_ok (content : Bytes) :
    shortOf (ofContent content) = .ok (String.ofList (shortDigits content)) := by
  rw [shortOf, short?_ofContent]

theorem shortOf_ofContent {content : Bytes} {short : String}
    (known : shortOf (ofContent content) = .ok short) :
    short = String.ofList (shortDigits content) :=
  Except.ok.inj (known.symm.trans (shortOf_ofContent_ok content))

end ContentHash

/-! ## Plain texts -/

/-- A text without slashes and zeros. -/
def IsPlainText (text : String) : Prop :=
  ∀ x ∈ Utf8.encode text, x ≠ slash ∧ x ≠ 0

theorem IsPlainText.of_all {text : String} (plain : (Utf8.encode text).all Name.isPlain = true) :
    IsPlainText text := by
  intro x member
  simpa [Name.isPlain] using List.all_eq_true.mp plain x member

theorem IsPlainText.append {a b : String} (first : IsPlainText a) (second : IsPlainText b) :
    IsPlainText (a ++ b) := by
  intro x member
  rw [Utf8.encode_append] at member
  rcases List.mem_append.mp member with member | member
  · exact first x member
  · exact second x member

/-- A plain text that is longer than the dot names is a name. -/
theorem IsPlainText.name {text : String} (plain : IsPlainText text)
    (long : 2 < (Utf8.encode text).length) : ∃ name, Name.ofText? text = some name := by
  have valid : isName (Utf8.encode text) = true := by
    simp only [isName, Bool.and_eq_true, List.all_eq_true, Bool.not_eq_true', bne_iff_ne, ne_eq]
    refine ⟨⟨⟨?_, fun x member => by simpa using plain x member⟩, ?_⟩, ?_⟩
    · cases octets : Utf8.encode text with
      | nil => simp [octets] at long
      | cons b bs => rfl
    · intro dotted
      simp [dotted] at long
    · intro dotted
      simp [dotted] at long
  exact ⟨⟨Utf8.encode text, valid⟩, by simp [Name.ofText?, Name.ofBytes?, valid]⟩

theorem isPlainText_ofList_hex {cs : List Char} (hex : ∀ c ∈ cs, Bytes.IsHexChar c) :
    IsPlainText (String.ofList cs) := by
  intro x member
  rw [Utf8.encode_ofList_ascii fun c known => (hex c known).ascii] at member
  obtain ⟨c, known, rfl⟩ := List.mem_map.mp member
  have number : (UInt8.ofNat c.toNat).toNat = c.toNat := by
    rw [UInt8.toNat_ofNat']
    exact Nat.mod_eq_of_lt (Nat.lt_trans (hex c known).ascii (by decide))
  have large : 48 ≤ c.toNat := by
    rcases hex c known with ⟨above, -⟩ | ⟨above, -⟩
    · exact above
    · exact Nat.le_trans (by decide) above
  constructor <;> intro same <;> rw [same] at number <;> simp [slash] at number <;> omega

theorem ContentHash.isPlainText_short (content : Bytes) :
    IsPlainText (String.ofList (shortDigits content)) :=
  isPlainText_ofList_hex fun _ member => isHexChar_shortDigits member

theorem ContentHash.length_encode_short (content : Bytes) :
    (Utf8.encode (String.ofList (shortDigits content))).length = shortLength := by
  rw [Utf8.encode_ofList_ascii fun c member => (isHexChar_shortDigits member).ascii,
    List.length_map, length_shortDigits]

theorem ContentHash.exists_shortName (content : Bytes) :
    ∃ name, Name.ofText? (String.ofList (shortDigits content)) = some name :=
  (isPlainText_short content).name (by rw [length_encode_short]; decide)

/-! ## Names of files -/

namespace Path

theorem mem_of_mem_place {fields : List Bytes} {start : Nat} {placed : Bytes × Nat}
    (member : placed ∈ place start fields) : placed.1 ∈ fields := by
  induction fields generalizing start with
  | nil => cases member
  | cons field rest ih =>
      rw [place] at member
      rcases List.mem_cons.mp member with rfl | member
      · exact List.mem_cons_self
      · exact List.mem_cons_of_mem field (ih member)

/-- A component that is a name is a field. -/
theorem mem_fields_of_name {p : Path} {bytes : Bytes} {position : Nat}
    (member : (Component.name bytes, position) ∈ p.located) : bytes ∈ p.bytes.splitOn slash := by
  rw [located_eq, locatedIn] at member
  rcases List.mem_append.mp member with member | member
  · unfold lead at member
    split at member
    · simp at member
    · split at member <;> simp at member
  · obtain ⟨⟨field, stop⟩, inside, known⟩ := List.mem_filterMap.mp member
    obtain ⟨c, isName, same⟩ := Option.map_eq_some_iff.mp known
    obtain ⟨rfl, rfl⟩ := Prod.mk.inj same
    unfold component? at isName
    split at isName
    · cases isName
    · split at isName
      · cases isName
      · obtain rfl : field = bytes := by simpa using isName
        exact mem_of_mem_place inside

theorem fileName?_octets {p : Path} {bytes : Bytes} (known : p.fileName? = some bytes) {x : UInt8}
    (member : x ∈ bytes) : x ≠ slash ∧ x ∈ p.bytes := by
  unfold fileName? at known
  split at known
  · rename_i field last
    obtain rfl : field = bytes := by simpa using known
    obtain ⟨⟨c, position⟩, inside, same⟩ := List.mem_map.mp (List.mem_of_getLast? last)
    obtain rfl : c = .name field := same
    have inFields := mem_fields_of_name inside
    refine ⟨?_, Bytes.mem_of_mem_splitOn inFields member⟩
    rintro rfl
    exact Bytes.sep_not_mem_of_mem_splitOn inFields member
  · cases known

/-- Stem and extension are parts of a name. -/
theorem stemAndExtension_octets (name : Bytes) :
    (∀ x ∈ (stemAndExtension name).1, x ∈ name)
      ∧ ∀ after, (stemAndExtension name).2 = some after → ∀ x ∈ after, x ∈ name := by
  unfold stemAndExtension
  simp only
  split
  · exact ⟨fun x member => member, by simp⟩
  · refine ⟨fun x member => List.mem_of_mem_take member, ?_⟩
    intro after known x member
    obtain rfl := Option.some.inj known
    have inside := (List.takeWhile_sublist _).subset (List.mem_reverse.mp member)
    exact List.mem_reverse.mp inside

theorem extension?_octets {p : Path} {bytes : Bytes} (known : p.extension? = some bytes) {x : UInt8}
    (member : x ∈ bytes) : x ≠ slash ∧ x ∈ p.bytes := by
  unfold extension? at known
  cases named : p.fileName? with
  | none => simp [named] at known
  | some name =>
      have parts : (stemAndExtension name).2 = some bytes := by simpa [named] using known
      exact fileName?_octets named ((stemAndExtension_octets name).2 bytes parts x member)

end Path

namespace Artifact

/-- What the name of a file keeps is plain, if no zero is in the path. -/
theorem isPlainText_suffix {source : Path} (zero : 0 ∉ source.bytes) {suffix : String}
    (known : suffix? source = some suffix) : IsPlainText suffix := by
  unfold suffix? at known
  cases named : source.extension? with
  | none => simp [named] at known
  | some bytes =>
      cases read : Utf8.decode? bytes with
      | none => simp [named, read] at known
      | some extension =>
          -- Whatever is in the extension is in the path, but no slash.
          have plain : IsPlainText extension := by
            intro x member
            rw [Utf8.encode_of_decode? read] at member
            obtain ⟨noSlash, inside⟩ := Path.extension?_octets named member
            exact ⟨noSlash, fun same => zero (same ▸ inside)⟩
          have tar : IsPlainText "tar." := .of_all (by decide +kernel)
          simp only [named, read, Option.bind_eq_bind, Option.bind_some] at known
          by_cases empty : extension.isEmpty = true
          · simp [empty] at known
          · simp only [empty] at known
            obtain rfl := Option.some.inj known
            split
            · exact tar.append plain
            · exact plain

theorem nameFor_name {source : Path} (zero : 0 ∉ source.bytes) (content : Bytes)
    (type : AssetType) :
    ∃ name, Name.ofText? (nameFor (String.ofList (ContentHash.shortDigits content)) type source)
      = some name := by
  have short := ContentHash.isPlainText_short content
  have long := ContentHash.length_encode_short content
  -- The digits alone make the name longer than one dot or two.
  have sixteen : 2 < ContentHash.shortLength := by decide
  have ending : IsPlainText ".tar.gz" := .of_all (by decide +kernel)
  have point : IsPlainText "." := .of_all (by decide +kernel)
  cases type with
  | directory => exact short.name (long ▸ sixteen)
  | archive =>
      refine (short.append ending).name ?_
      rw [Utf8.encode_append, List.length_append, long]
      omega
  | file =>
      simp only [nameFor]
      cases known : suffix? source with
      | none => exact short.name (long ▸ sixteen)
      | some suffix =>
          have plain := isPlainText_suffix zero known
          refine ((short.append point).append plain).name ?_
          rw [Utf8.encode_append, Utf8.encode_append, List.length_append, List.length_append, long]
          omega

/-- The path of an artifact tells the names that it is made of. -/
theorem stagedAt_inj {p : Path} {a b c d : Name}
    (same : (p.child a).child b = (p.child c).child d) : a = c ∧ b = d := by
  have steps := congrArg Path.steps same
  simpa [Path.steps_child] using steps

end Artifact
end StackSynth
