import StackSynth.Proofs.Locating
import StackSynth.Proofs.Warning

/-!
# Pointing — the line that a warning names

A warning names the first line on which the text of its key stands, wherever in the line that is.
So it points at the key if no line in front of it holds the same text: in a comment, in a value, or
inside of another key.

* `Text.line_around` — the line on which a place of a text lies;
* `Warning.lineOf?_eq_some_iff` — the line that is named is the first that holds the text;
* `Warning.SetOn`, `Warning.SpelledOn` — lines on which a key is set, and written letter by letter;
* `Warning.exists_setOn_iff` — the keys of a file are those that are set on some line of it;
* `Warning.Points`, `Warning.warned_in_order` — there is one warning for each unknown key, and when
  its line is one on which the key is set.
-/

namespace StackSynth

/-! ## Lines -/

namespace Text

theorem occursIn_iff {α : Type} [BEq α] [LawfulBEq α] {needle xs : List α} :
    occursIn needle xs = true ↔ needle <:+: xs := by
  induction xs with
  | nil => rw [occursIn, List.isEmpty_iff, List.infix_nil]
  | cons x xs ih =>
      rw [occursIn, Bool.or_eq_true, List.isPrefixOf_iff_prefix, ih, List.infix_cons_iff]

theorem exists_fields (separator : Char) (cs : List Char) :
    ∃ field rest, fields separator cs = field :: rest := by
  cases cs with
  | nil => exact ⟨[], [], rfl⟩
  | cons c cs =>
      rw [fields]
      split
      · exact ⟨[], _, rfl⟩
      · split
        · exact ⟨[c], [], rfl⟩
        · exact ⟨_, _, rfl⟩

theorem fields_cons_of_ne {separator c : Char} (different : c ≠ separator) {cs field : List Char}
    {rest : List (List Char)} (found : fields separator cs = field :: rest) :
    fields separator (c :: cs) = (c :: field) :: rest := by
  rw [fields, if_neg different, found]

/-- A word without separators lies in one field, and as many fields are in front of that as there
are separators in front of the word. -/
theorem fields_around {separator : Char} {word : List Char} (free : ∀ c ∈ word, c ≠ separator)
    (before after : List Char) :
    ∃ front own back rest, fields separator (before ++ (word ++ after))
        = front ++ (own ++ (word ++ back)) :: rest
      ∧ front.length = before.count separator := by
  induction before with
  | nil =>
      -- The field begins with the word, which is put in front of it character by character.
      obtain ⟨back, rest, found⟩ := exists_fields separator after
      refine ⟨[], [], back, rest, ?_, rfl⟩
      induction word with
      | nil => exact found
      | cons c word ih =>
          obtain ⟨different, others⟩ := List.forall_mem_cons.mp free
          exact fields_cons_of_ne different (ih others)
  | cons c before ih =>
      obtain ⟨front, own, back, rest, found, count⟩ := ih
      by_cases same : c = separator
      · refine ⟨[] :: front, own, back, rest, ?_, ?_⟩
        · rw [List.cons_append, fields, if_pos same, found]
          rfl
        · rw [same, List.count_cons_self, List.length_cons, count]
      · have kept : (c :: before).count separator = before.count separator :=
          List.count_cons_of_ne same
        cases front with
        | nil => exact ⟨[], c :: own, back, rest, fields_cons_of_ne same found, kept ▸ count⟩
        | cons first front =>
            exact ⟨(c :: first) :: front, own, back, rest, fields_cons_of_ne same found,
              kept ▸ count⟩

/-- A word without carriage returns is still in the line when its end has been dropped. -/
theorem infix_dropReturn {word line : List Char} (free : ∀ c ∈ word, c ≠ '\r')
    (within : word <:+: line) : word <:+: dropReturn line := by
  unfold dropReturn
  split
  · rename_i ends
    obtain ⟨shorter, rfl⟩ := List.getLast?_eq_some_iff.mp ends
    rw [List.dropLast_concat]
    rcases List.infix_concat_iff.mp within with at_end | inner
    · -- A word that reaches the end of the line would have the carriage return in it.
      rcases List.suffix_concat_iff.mp at_end with rfl | ⟨most, rfl, -⟩
      · exact List.nil_infix
      · exact absurd rfl (free '\r' (by simp))
    · exact inner
  · exact within

/-- A line that holds something stays, perhaps without its carriage return. -/
theorem closeLines_getElem? {line : List Char} (filled : line ≠ [])
    (front rest : List (List Char)) :
    (closeLines (front ++ line :: rest))[front.length]? = some line
      ∨ (closeLines (front ++ line :: rest))[front.length]? = some (dropReturn line) := by
  induction front with
  | nil =>
      cases rest with
      | nil =>
          left
          simp [closeLines, filled]
      | cons next rest => exact Or.inr rfl
  | cons first front ih =>
      have step : closeLines (first :: (front ++ line :: rest))
          = dropReturn first :: closeLines (front ++ line :: rest) := by
        cases front <;> rfl
      rw [List.cons_append, step]
      exact ih

/-- The line on which a word of a text stands. -/
theorem line_around {content : String} {before word after : List Char}
    (whole : content.toList = before ++ (word ++ after)) (filled : word ≠ [])
    (free : ∀ c ∈ word, c ≠ '\n' ∧ c ≠ '\r') :
    ∃ line, (lines content)[before.count '\n']? = some line ∧ word <:+: line.toList := by
  obtain ⟨front, own, back, rest, found, count⟩ :=
    fields_around (fun c among => (free c among).1) before after
  have within : word <:+: own ++ (word ++ back) :=
    (List.prefix_append word back).isInfix.trans (List.suffix_append own _).isInfix
  have some : own ++ (word ++ back) ≠ [] := by simp [filled]
  rw [lines, whole, found, ← count, List.getElem?_map]
  rcases closeLines_getElem? some front rest with kept | dropped
  · rw [kept]
    exact ⟨_, rfl, String.toList_ofList ▸ within⟩
  · rw [dropped]
    have still := infix_dropReturn (fun c among => (free c among).2) within
    exact ⟨_, rfl, String.toList_ofList ▸ still⟩

/-- A text without separators is one field. -/
theorem fields_of_free {separator : Char} {cs : List Char} (free : ∀ c ∈ cs, c ≠ separator) :
    fields separator cs = [cs] := by
  induction cs with
  | nil => rfl
  | cons c cs ih =>
      obtain ⟨different, others⟩ := List.forall_mem_cons.mp free
      exact fields_cons_of_ne different (ih others)

/-- Behind a separator come the fields of the text behind it. -/
theorem fields_append (separator : Char) (before after : List Char) :
    ∃ first front, fields separator (before ++ separator :: after)
      = first :: (front ++ fields separator after) := by
  induction before with
  | nil =>
      refine ⟨[], [], ?_⟩
      rw [List.nil_append, fields, if_pos rfl, List.nil_append]
  | cons c before ih =>
      obtain ⟨first, front, found⟩ := ih
      by_cases same : c = separator
      · refine ⟨[], first :: front, ?_⟩
        rw [List.cons_append, fields, if_pos same, found, List.cons_append]
      · exact ⟨c :: first, front, fields_cons_of_ne same found⟩

end Text

/-! ## The line of a warning -/

namespace Warning

section

/-- The text stands somewhere on the line with the number. -/
def LineHolds (content : String) (n : Nat) (text : String) : Prop :=
  ∃ i line, n = i + 1 ∧ (Text.lines content)[i]? = some line ∧ text.toList <:+: line.toList

/-- The line is the first on which the text stands. -/
def FirstHolds (content : String) (n : Nat) (text : String) : Prop :=
  LineHolds content n text ∧ ∀ m < n, ¬LineHolds content m text

variable {content text : String} {n m : Nat}

theorem lineOf?_eq_some_iff : lineOf? content text = some n ↔ FirstHolds content n text := by
  unfold lineOf?
  rw [Option.map_eq_some_iff]
  constructor
  · rintro ⟨i, found, rfl⟩
    obtain ⟨inside, holds, before⟩ := List.findIdx?_eq_some_iff_getElem.mp found
    refine ⟨⟨i, _, rfl, List.getElem?_eq_getElem inside, Text.occursIn_iff.mp holds⟩, ?_⟩
    rintro m less ⟨j, line, rfl, there, within⟩
    obtain ⟨short, rfl⟩ := List.getElem?_eq_some_iff.mp there
    exact before j (Nat.lt_of_succ_lt_succ less) (Text.occursIn_iff.mpr within)
  · rintro ⟨⟨i, line, rfl, there, within⟩, before⟩
    obtain ⟨short, rfl⟩ := List.getElem?_eq_some_iff.mp there
    refine ⟨i, List.findIdx?_eq_some_iff_getElem.mpr ⟨short, Text.occursIn_iff.mpr within, ?_⟩, rfl⟩
    intro j less holds
    have inside : j < (Text.lines content).length := less.trans short
    exact before (j + 1) (Nat.succ_lt_succ less)
      ⟨j, _, rfl, List.getElem?_eq_getElem inside, Text.occursIn_iff.mp holds⟩

theorem exists_lineOf? (holds : LineHolds content n text) :
    ∃ m ≤ n, lineOf? content text = some m := by
  cases found : lineOf? content text with
  | some m =>
      have first := lineOf?_eq_some_iff.mp found
      exact ⟨m, Nat.le_of_not_lt fun less => first.2 n less holds, rfl⟩
  | none =>
      obtain ⟨i, line, rfl, there, within⟩ := holds
      have missing := List.findIdx?_eq_none_iff.mp (Option.map_eq_none_iff.mp found) line
        (List.mem_of_getElem? there)
      rw [Text.occurs, Text.occursIn_iff.mpr within] at missing
      cases missing

/-! ## The key of a warning -/

/-- What leads to a key does not matter. -/
theorem lastField_append (before after : List Char) :
    lastField (String.ofList (before ++ '.' :: after)) = lastField (String.ofList after) := by
  obtain ⟨first, front, found⟩ := Text.fields_append '.' before after
  obtain ⟨field, rest, known⟩ := Text.exists_fields '.' after
  have last : (first :: front ++ field :: rest).getLast? = (field :: rest).getLast? :=
    List.getLast?_append_of_ne_nil _ (List.cons_ne_nil _ _)
  rw [lastField, lastField, String.toList_ofList, String.toList_ofList, found, known,
    List.getLastD_eq_getLast?, List.getLastD_eq_getLast?, ← List.cons_append, last]

theorem lastField_join (front : List String) (key : String) :
    lastField (Text.joinWith "." (front ++ [key])) = lastField key := by
  induction front with
  | nil => rfl
  | cons first front ih =>
      have joined : Text.joinWith "." (first :: (front ++ [key]))
          = first ++ "." ++ Text.joinWith "." (front ++ [key]) := by
        cases front <;> rfl
      have dotted : ∀ behind : String,
          first ++ "." ++ behind = String.ofList (first.toList ++ '.' :: behind.toList) := by
        intro behind
        simp [← String.toList_inj]
      rw [List.cons_append, joined, dotted, lastField_append, String.ofList_toList, ih]

theorem lastField_of_free {key : String} (free : ∀ c ∈ key.toList, c ≠ '.') :
    lastField key = key := by
  rw [lastField, Text.fields_of_free free]
  exact String.ofList_toList

theorem lastField_ofList_suffix (cs : List Char) :
    (lastField (String.ofList cs)).toList <:+ cs := by
  induction size : cs.length using Nat.strong_induction_on generalizing cs with
  | _ n shorter =>
      subst size
      by_cases dot : '.' ∈ cs
      · obtain ⟨before, after, rfl⟩ := List.append_of_mem dot
        have behind : after <:+ before ++ '.' :: after :=
          (List.suffix_cons _ _).trans (List.suffix_append _ _)
        have less : after.length < (before ++ '.' :: after).length := by simp; omega
        rw [lastField_append]
        exact (shorter _ less after rfl).trans behind
      · have free : ∀ c ∈ (String.ofList cs).toList, c ≠ '.' := by
          rw [String.toList_ofList]
          exact fun c among same => dot (same ▸ among)
        rw [lastField_of_free free, String.toList_ofList]

/-- What a warning calls the key is the end of it. -/
theorem lastField_suffix (key : String) : (lastField key).toList <:+ key.toList := by
  simpa using lastField_ofList_suffix key.toList

/-! ## Lines on which a key is set -/

/-- On the line the key is assigned, or opened as a table. -/
def SetOn (content : String) (keys : List String) (n : Nat) : Prop :=
  ∃ before spot, content.toList = before ++ spot ∧ n = before.count '\n' + 1
    ∧ Toml.KeyAt .start (Toml.dropMark content.toList) keys spot

/-- The key is written letter by letter, bare or in quotes. -/
def Spelled (key : String) (spot : List Char) : Prop :=
  (∀ c ∈ key.toList, Toml.isPlain c = true) ∧ ∃ mark after, mark ∈ [[], ['"'], ['\'']]
    ∧ mark ++ key.toList ≠ [] ∧ spot = mark ++ (key.toList ++ after)

/-- The same where the key is written letter by letter. -/
def SpelledOn (content : String) (keys : List String) (n : Nat) : Prop :=
  ∃ before spot front key, content.toList = before ++ spot ∧ n = before.count '\n' + 1
    ∧ Toml.KeyAt .start (Toml.dropMark content.toList) keys spot ∧ keys = front ++ [key]
    ∧ Spelled key spot

theorem not_newline_of_isPlain {c : Char} (plain : Toml.isPlain c = true) :
    c ≠ '\n' ∧ c ≠ '\r' := by
  constructor
  · rintro rfl
    cases plain
  · rintro rfl
    cases plain

theorem isPlain_of_isBareKey {c : Char} (bare : Toml.isBareKey c = true) :
    Toml.isPlain c = true := by
  have range : 0x20 ≤ c.toNat ∧ c.toNat ≤ 0x7E := by
    simp only [Toml.isBareKey, Char.isAlphanum, Char.isAlpha, Char.isUpper, Char.isLower,
      Char.isDigit, Bool.or_eq_true, Bool.and_eq_true, decide_eq_true_eq, beq_iff_eq,
      UInt32.le_iff_toNat_le] at bare
    rcases bare with ((((letter | letter) | digit) | rfl) | rfl)
    · exact ⟨le_trans (by decide) letter.1, le_trans letter.2 (by decide)⟩
    · exact ⟨le_trans (by decide) letter.1, le_trans letter.2 (by decide)⟩
    · exact ⟨le_trans (by decide) digit.1, le_trans digit.2 (by decide)⟩
    · decide
    · decide
  simp [Toml.isPlain, range]

theorem readLiteral_eq {cs text rest : List Char} (read : Toml.readLiteral cs = some (text, rest)) :
    cs = text ++ '\'' :: rest ∧ ∀ c ∈ text, Toml.isPlain c = true := by
  fun_induction Toml.readLiteral cs generalizing text with
  | case1 => cases read
  | case2 after =>
      obtain ⟨rfl, rfl⟩ := Prod.mk.inj (Option.some.inj read)
      exact ⟨rfl, List.forall_mem_nil _⟩
  | case3 c after _ plain ih =>
      obtain ⟨text, known, rfl⟩ := Toml.made_of_read read
      obtain ⟨rfl, others⟩ := ih known
      exact ⟨rfl, List.forall_mem_cons.mpr ⟨plain, others⟩⟩
  | case4 => cases read

/-- Only in double quotes a key can be written in another way. -/
theorem spelled_of_read {spot rest : List Char} {key : String}
    (read : Toml.readSimpleKey spot = some (key, rest)) (other : spot.head? ≠ some '"') :
    Spelled key spot := by
  unfold Toml.readSimpleKey at read
  split at read
  · exact absurd rfl other
  · rename_i inner
    obtain ⟨⟨text, after⟩, known, same⟩ := Option.map_eq_some_iff.mp read
    obtain ⟨rfl, rfl⟩ := Prod.mk.inj same
    obtain ⟨rfl, plain⟩ := readLiteral_eq known
    refine ⟨by simpa using plain, ['\''], '\'' :: after, by simp, by simp, by simp⟩
  · dsimp only at read
    split at read
    · cases read
    · rename_i filled
      obtain ⟨rfl, rfl⟩ := Prod.mk.inj (Option.some.inj read)
      rw [List.isEmpty_iff] at filled
      refine ⟨fun c among => ?_, [], spot.dropWhile Toml.isBareKey, by simp, ?_, ?_⟩
      · rw [String.toList_ofList] at among
        exact isPlain_of_isBareKey (List.mem_takeWhile_imp among)
      · rwa [List.nil_append, String.toList_ofList]
      · rw [List.nil_append, String.toList_ofList, List.takeWhile_append_dropWhile]

theorem lineHolds_of_spelled {before spot : List Char} {key : String}
    (whole : content.toList = before ++ spot) (spelled : Spelled key spot) :
    LineHolds content (before.count '\n' + 1) (lastField key) := by
  -- With its quote the word is never empty, so that it lies on a line even if the key is.
  obtain ⟨plain, mark, after, among, filled, rfl⟩ := spelled
  rw [← List.append_assoc mark] at whole
  have marks : ∀ mark ∈ [[], ['"'], ['\'']], ∀ c ∈ mark, c ≠ '\n' ∧ c ≠ '\r' := by simp
  have free : ∀ c ∈ mark ++ key.toList, c ≠ '\n' ∧ c ≠ '\r' := List.forall_mem_append.mpr
    ⟨marks mark among, fun c inside => not_newline_of_isPlain (plain c inside)⟩
  obtain ⟨line, there, within⟩ := Text.line_around whole filled free
  have last : (lastField key).toList <:+: mark ++ key.toList :=
    ((lastField_suffix key).trans (List.suffix_append _ _)).isInfix
  exact ⟨_, line, rfl, there, last.trans within⟩

/-! ## Warnings -/

/-- The warning is about the key.  It names the first line on which the text of the key stands, and
that is a line on which the key is set exactly if no line in front of the first of those holds the
text. -/
structure Points (file : Path) (content : String) (document : Toml) (keys : List String)
    (warning : Warning) : Prop where
  key : ∃ front key, keys = front ++ [key] ∧ warning.key = lastField key
    ∧ ((∀ c ∈ key.toList, c ≠ '.') → warning.key = key)
  file : warning.file = file
  set : document.Stamped keys ∨ ∃ n, SetOn content keys n
  right_iff : (∃ n, warning.line = some n ∧ SetOn content keys n)
    ↔ ∃ n, SetOn content keys n ∧ FirstHolds content n warning.key
  line : ∀ n, SpelledOn content keys n → ∃ m ≤ n, warning.line = some m
  first_iff : ∀ n, SpelledOn content keys n → (∀ m < n, ¬SetOn content keys m) →
    ((∃ m, warning.line = some m ∧ SetOn content keys m)
      ↔ ∀ m < n, ¬LineHolds content m warning.key)

variable {file : Path} {document : Toml} {keys : List String}

theorem SpelledOn.setOn (spelled : SpelledOn content keys n) : SetOn content keys n := by
  obtain ⟨before, spot, front, key, whole, line, there, -, -⟩ := spelled
  exact ⟨before, spot, whole, line, there⟩

/-- The keys that are set on some line are those of the file's table. -/
theorem exists_setOn_iff (parsed : Toml.parse? content = some document) :
    (∃ n, SetOn content keys n) ↔ document.Leads keys := by
  rw [← Toml.exists_keyAt_iff parsed]
  constructor
  · rintro ⟨n, before, spot, -, -, there⟩
    exact ⟨spot, there⟩
  · rintro ⟨spot, there⟩
    obtain ⟨before, whole⟩ := there.stands.1.trans (Toml.dropMark_suffix content.toList)
    exact ⟨_, before, spot, whole.symm, rfl, there⟩

theorem points_ofPath (file : Path) (parsed : Toml.parse? content = some document)
    (holds : Data.Holds document keys) :
    Points file content document keys (ofPath file content (Text.joinWith "." keys)) := by
  have key : ∃ front key, keys = front ++ [key]
      ∧ lastField (Text.joinWith "." keys) = lastField key
      ∧ ((∀ c ∈ key.toList, c ≠ '.') → lastField (Text.joinWith "." keys) = key) := by
    cases holds with
    | @key _ _ front _ _ key =>
        have last := lastField_join front key
        exact ⟨front, key, rfl, last, fun free => last.trans (lastField_of_free free)⟩
  have line : ∀ n, SpelledOn content keys n →
      LineHolds content n (lastField (Text.joinWith "." keys)) := by
    rintro n ⟨before, spot, front, key, whole, rfl, -, rfl, spelled⟩
    rw [lastField_join]
    exact lineHolds_of_spelled whole spelled
  refine ⟨key, rfl, ?_, ?_, fun n spelled => exists_lineOf? (line n spelled), ?_⟩
  · exact (Toml.leads_or_stamped holds).symm.imp_right (exists_setOn_iff parsed).mpr
  · simp only [ofPath, lineOf?_eq_some_iff]
    exact exists_congr fun n => and_comm
  · intro n spelled first
    simp only [ofPath, lineOf?_eq_some_iff]
    constructor
    · -- The line that is named is not in front of the first line that sets the key.
      rintro ⟨m, holds, set⟩ earlier less
      have after : n ≤ m := Nat.le_of_not_lt fun sooner => first m sooner set
      exact holds.2 earlier (less.trans_le after)
    · intro none
      exact ⟨n, ⟨line n spelled, none⟩, spelled.setOn⟩

/-- The warnings are about the unknown keys of the file: one for each, in the order in which they
were noted. -/
def About {α : Type} (file : Path) (content : String) (read : Toml → Reading α) (value : α)
    (warnings : List Warning) : Prop :=
  ∃ document unknown, Toml.parse? content = some document
    ∧ (read document).run = .ok (value, unknown)
    ∧ List.Forall₂ (Points file content document) unknown warnings

theorem readToml_eq {α : Type} {read : Toml → Reading α} {value : α} {unknown : List UnknownKey}
    (parsed : Toml.parse? content = some document)
    (run : (read document).run = .ok (value, unknown)) :
    readToml file content read = .ok (value, ofKeys file content unknown) := by
  rw [readToml, parsed]
  dsimp only
  rw [run]

theorem about_readToml {α : Type} {read : Toml → Reading α} (within : Reading.Within read)
    {value : α} {warnings : List Warning}
    (done : readToml file content read = .ok (value, warnings)) :
    About file content read value warnings := by
  unfold readToml at done
  split at done
  · cases done
  · rename_i document parsed
    split at done
    · cases done
    · rename_i value' unknown run
      cases done
      obtain ⟨new, rfl, noted⟩ := within document [] value unknown run
      refine ⟨document, _, parsed, run, ?_⟩
      rw [ofKeys, List.forall₂_map_right_iff, List.forall₂_same]
      exact fun keys among => points_ofPath file parsed (noted keys among)

/-- Whoever reads a stack file or the file of a user is warned about each unknown key, in order, and
is pointed at the key unless an earlier line holds the same text. -/
theorem warned_in_order (file : Path) (content : String) :
    (∀ base stack warnings, StackFile.ofText file content base = .ok (stack, warnings) →
        About file content (StackFile.read base) stack warnings)
      ∧ ∀ layer warnings,
        readToml file content (Layer.fileRecord.read {} .ok) = .ok (layer, warnings) →
        About file content (Layer.fileRecord.read {} .ok) layer warnings :=
  ⟨fun base _ _ => about_readToml (StackFile.notes_read base),
    fun _ _ => about_readToml Layer.notes_readFile⟩

end

/-! ### A key of its own -/

namespace Stray

/-- Nothing but the fifth line holds the text of its key. -/
def content : String := "[stack]\nname = 's'\n\n[app]\nout = 'x'\n"

def file : Path := Path.ofString "stack.toml"

def document : Toml :=
  .table [("stack", .table [("name", .string "s")]), ("app", .table [("out", .string "x")])]

theorem parsed : Toml.parse? content = some document := by cbv

def stack : StackFile :=
  ⟨{}, "s", [], [], [], [], [], StackFile.here⟩

def outWarning : Warning :=
  ⟨"out", file, some 5, suggestion? "out"⟩

def stackWarning : Warning :=
  ⟨"stack", file, some 1, suggestion? "stack"⟩

theorem stray_pointed_at :
    StackFile.ofText file content StackFile.here = .ok (stack, [outWarning])
      ∧ readToml file content (Layer.fileRecord.read {} .ok) = .ok ({}, [stackWarning, outWarning])
      ∧ About file content (StackFile.read StackFile.here) stack [outWarning]
      ∧ About file content (Layer.fileRecord.read {} .ok) {} [stackWarning, outWarning] := by
  have out : ofPath file content (Text.joinWith "." ["app", "out"]) = outWarning := by
    have key : lastField (Text.joinWith "." ["app", "out"]) = "out" := by decide +kernel
    have line : lineOf? content "out" = some 5 := by decide +kernel
    rw [ofPath, key, line, outWarning]
  have first : ofPath file content (Text.joinWith "." ["stack"]) = stackWarning := by
    have key : lastField (Text.joinWith "." ["stack"]) = "stack" := by decide +kernel
    have line : lineOf? content "stack" = some 1 := by decide +kernel
    rw [ofPath, key, line, stackWarning]
  have declared : StackFile.ofText file content StackFile.here = .ok (stack, [outWarning]) := by
    have run : (StackFile.read StackFile.here document).run = .ok (stack, [["app", "out"]]) := by
      cbv
    exact out ▸ readToml_eq parsed run
  have layered : readToml file content (Layer.fileRecord.read {} .ok)
      = .ok ({}, [stackWarning, outWarning]) := by
    have run : (Layer.fileRecord.read {} .ok document).run
        = .ok ({}, [["stack"], ["app", "out"]]) := by
      cbv
    exact out ▸ first ▸ readToml_eq parsed run
  exact ⟨declared, layered, (warned_in_order file content).1 _ _ _ declared,
    (warned_in_order file content).2 _ _ layered⟩

end Stray

/-! ### A key inside of another -/

namespace Outdir

/-- The text of the key on the third line stands on the second one too, where a known key is set. -/
def content : String := "[app]\noutdir = 'o'\nout = 'x'\n"

def file : Path := Path.ofString "c.toml"

def document : Toml :=
  .table [("app", .table [("outdir", .string "o"), ("out", .string "x")])]

def layer : Layer := ⟨some (Path.ofString "o"), none⟩

theorem parsed : Toml.parse? content = some document := by cbv

theorem leads_out : document.Leads ["app", "out"] :=
  .key (.under rfl List.mem_cons_self (.here _)) (List.mem_cons_of_mem _ List.mem_cons_self)

/-- The text goes on with the key on the third line only. -/
theorem line_of_out : ∀ i ≤ content.toList.length,
    (Toml.readSimpleKey (content.toList.drop i)).map (·.1) = some "out" →
      (content.toList.take i).count '\n' + 1 = 3 := by
  decide +kernel

theorem setOn_out {n : Nat} (set : SetOn content ["app", "out"] n) : n = 3 := by
  obtain ⟨before, spot, whole, rfl, there⟩ := set
  obtain ⟨-, front, key, rest, same, read⟩ := there.stands
  have split : ["app"] ++ ["out"] = front ++ [key] := same
  obtain rfl := List.singleton_inj.mp (List.append_inj' split rfl).2
  have short : before.length ≤ content.toList.length := by
    rw [whole, List.length_append]
    exact Nat.le_add_right _ _
  have line := line_of_out before.length short
  rw [whole, List.drop_left, List.take_left, read] at line
  exact line rfl

theorem out_not_on_line :
    Toml.parse? content = some document
      ∧ (Layer.fileRecord.read {} .ok document).run = .ok (layer, [["app", "out"]])
      ∧ readToml file content (Layer.fileRecord.read {} .ok)
        = .ok (layer, [⟨"out", file, some 2, suggestion? "out"⟩])
      ∧ SetOn content ["app", "out"] 3 ∧ ¬SetOn content ["app", "out"] 2 := by
  have run : (Layer.fileRecord.read {} .ok document).run = .ok (layer, [["app", "out"]]) := by cbv
  have warned : ofPath file content (Text.joinWith "." ["app", "out"])
      = ⟨"out", file, some 2, suggestion? "out"⟩ := by
    have key : lastField (Text.joinWith "." ["app", "out"]) = "out" := by decide +kernel
    have line : lineOf? content "out" = some 2 := by decide +kernel
    rw [ofPath, key, line]
  obtain ⟨n, set⟩ := (exists_setOn_iff parsed).mpr leads_out
  refine ⟨parsed, run, warned ▸ readToml_eq parsed run, setOn_out set ▸ set, fun second => ?_⟩
  exact absurd (setOn_out second) (by decide)

end Outdir

end Warning
end StackSynth
