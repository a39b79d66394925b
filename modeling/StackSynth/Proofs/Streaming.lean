import StackSynth.CommandLine
import StackSynth.Proofs.Display
import StackSynth.Proofs.Exactness
import StackSynth.Proofs.Parsing

/-!
# Streaming — a stream of events can be taken apart

A line feed ends every event, and none stands inside of an event: in keys and in strings it is
written as an escape, and nothing else that is written on a single line is a control character.
So the line feeds of a stream tell where its events end, and each line reads back.

* `Json.Visible`, `Json.visible_compactChars` — what is written on a single line;
* `Json.compactChars_written`, `Json.parse?_compact` — it reads back;
* `CommandLine.tell` — one event after another;
* `CommandLine.stream_taken_apart` — what the octets of a stream tell.
-/

namespace StackSynth

namespace Json

/-! ## Texts without control characters -/

/-- No character of the text is a control character below the space. -/
def Visible (cs : List Char) : Prop :=
  ∀ c ∈ cs, 0x20 ≤ c.toNat

variable {cs ds : List Char}

theorem visible_nil : Visible [] :=
  List.forall_mem_nil _

theorem visible_cons_iff {c : Char} : Visible (c :: cs) ↔ 0x20 ≤ c.toNat ∧ Visible cs :=
  List.forall_mem_cons

theorem visible_append_iff : Visible (cs ++ ds) ↔ Visible cs ∧ Visible ds :=
  List.forall_mem_append

theorem Visible.subset (visible : Visible cs) (inside : ds ⊆ cs) : Visible ds :=
  fun c member => visible c (inside member)

theorem Visible.newline_not_mem (visible : Visible cs) : '\n' ∉ cs :=
  fun member => absurd (visible _ member) (by decide)

/-! ### Strings -/

theorem visible_hexDigit {n : Nat} (small : n < 16) : 0x20 ≤ (Bytes.hexDigit n).toNat := by
  have all : ∀ k : Fin 16, 0x20 ≤ (Bytes.hexDigit k).toNat := by decide
  exact all ⟨n, small⟩

/-- A control character becomes an escape, and every other character is visible. -/
theorem visible_escaped (c : Char) : Visible (escaped c) := by
  unfold escaped
  split
  case h_8 =>
    split
    · rename_i control
      have high := visible_hexDigit (n := c.toNat / 16) (by omega)
      have low := visible_hexDigit (n := c.toNat % 16) (by omega)
      simp only [visible_cons_iff]
      exact ⟨by decide, by decide, by decide, by decide, high, low, visible_nil⟩
    · rename_i large
      exact visible_cons_iff.mpr ⟨Nat.not_lt.mp large, visible_nil⟩
  all_goals simp only [visible_cons_iff]; exact ⟨by decide, by decide, visible_nil⟩

theorem visible_quoted (text : String) : Visible (quoted text) := by
  refine visible_cons_iff.mpr ⟨by decide, visible_append_iff.mpr ⟨fun c member => ?_, ?_⟩⟩
  · obtain ⟨d, -, inside⟩ := List.mem_flatMap.mp member
    exact visible_escaped d c inside
  · exact visible_cons_iff.mpr ⟨by decide, visible_nil⟩

/-! ### Numbers -/

theorem visible_naturalText (n : Nat) : Visible (naturalText n) := by
  intro c member
  have digit := isDigit_naturalText member
  simp only [Char.isDigit, Bool.and_eq_true, decide_eq_true_eq] at digit
  exact Nat.le_trans (by decide) (UInt32.le_iff_toNat_le.mp digit.1)

theorem visible_integerText (value : Int) : Visible (integerText value) := by
  cases value with
  | ofNat n => exact visible_naturalText n
  | negSucc n => exact visible_cons_iff.mpr ⟨by decide, visible_naturalText (n + 1)⟩

theorem visible_zeros (count : Nat) : Visible (zeros count) := by
  intro c member
  rw [List.eq_of_mem_replicate member]
  decide

theorem visible_positional (digits : Visible ds) (before : Int) :
    Visible (positional ds before) := by
  unfold positional
  dsimp only
  split
  · simp only [visible_cons_iff, visible_append_iff]
    exact ⟨by decide, by decide, visible_zeros _, digits⟩
  · have whole : Visible (ds.take before.toNat) := digits.subset (List.take_subset _ _)
    have fraction :
        Visible (if (ds.drop before.toNat).isEmpty then ['0'] else ds.drop before.toNat) := by
      split
      · exact visible_cons_iff.mpr ⟨by decide, visible_nil⟩
      · exact digits.subset (List.drop_subset _ _)
    simp only [visible_cons_iff, visible_append_iff]
    exact ⟨⟨whole, visible_zeros _⟩, by decide, fraction⟩

theorem visible_scientific (digits : Visible ds) (exponent : Int) :
    Visible (scientific ds exponent) := by
  have fraction : Visible (if (ds.drop 1).isEmpty then [] else '.' :: ds.drop 1) := by
    split
    · exact visible_nil
    · exact visible_cons_iff.mpr ⟨by decide, digits.subset (List.drop_subset _ _)⟩
  have sign : 0x20 ≤ (if exponent < 0 then '-' else '+').toNat := by
    split <;> decide
  unfold scientific
  simp only [visible_cons_iff, visible_append_iff]
  exact ⟨⟨digits.subset (List.take_subset _ _), fraction⟩, by decide, sign, visible_naturalText _⟩

theorem visible_doubleText (value : Binary64) : Visible (doubleText value) := by
  cases value with
  | finite negative significand exponent =>
      have digits : ∀ n, Visible (trimZeros (naturalText n)) := fun n =>
        (visible_naturalText n).subset fun c member => by
          have inside := (List.dropWhile_sublist _).subset (List.mem_reverse.mp member)
          exact List.mem_reverse.mp inside
      have magnitude : ∀ (n : Nat) (first : Int), Visible (if isPositional first then
          positional (trimZeros (naturalText n)) (first + 1)
          else scientific (trimZeros (naturalText n)) first) := by
        intro n first
        split
        · exact visible_positional (digits n) _
        · exact visible_scientific (digits n) _
      have zero : Visible ['0', '.', '0'] := by simp [Visible]
      unfold doubleText
      dsimp only
      split
      · refine visible_cons_iff.mpr ⟨by decide, ?_⟩
        split
        · exact zero
        · exact magnitude _ _
      · split
        · exact zero
        · exact magnitude _ _
  | infinite negative => simp [doubleText, Visible]
  | nan => simp [doubleText, Visible]

/-! ### Documents -/

theorem visible_separated {parts : List (List Char)} (each : ∀ part ∈ parts, Visible part) :
    Visible (separated [','] parts) := by
  induction parts with
  | nil => exact visible_nil
  | cons part rest ih =>
      simp only [List.forall_mem_cons] at each
      cases rest with
      | nil => exact each.1
      | cons next others =>
          rw [separated, visible_append_iff, visible_append_iff]
          · exact ⟨⟨each.1, visible_cons_iff.mpr ⟨by decide, visible_nil⟩⟩, ih each.2⟩
          · exact List.cons_ne_nil _ _

mutual

/-- Nothing that is written on a single line is a control character. -/
theorem visible_compactChars : ∀ d : Json, Visible (compactChars d)
  | .null => by simp [compactChars, nullText, Visible]
  | .bool value => by cases value <;> simp [compactChars, boolText, Visible]
  | .number (.integer value) => visible_integerText value
  | .number (.double value) => visible_doubleText value
  | .string value => visible_quoted value
  | .array items => by
      have inside := visible_separated (visible_compactItems items)
      rw [compactChars, visible_cons_iff, visible_append_iff]
      exact ⟨by decide, inside, visible_cons_iff.mpr ⟨by decide, visible_nil⟩⟩
  | .object members => by
      have inside := visible_separated (visible_compactMembers members)
      rw [compactChars, visible_cons_iff, visible_append_iff]
      exact ⟨by decide, inside, visible_cons_iff.mpr ⟨by decide, visible_nil⟩⟩

theorem visible_compactItems : ∀ items : List Json, ∀ part ∈ compactItems items, Visible part
  | [] => List.forall_mem_nil _
  | item :: rest =>
      List.forall_mem_cons.mpr ⟨visible_compactChars item, visible_compactItems rest⟩

theorem visible_compactMembers : ∀ members : List (String × Json),
    ∀ part ∈ compactMembers members, Visible part
  | [] => List.forall_mem_nil _
  | (key, value) :: rest => by
      refine List.forall_mem_cons.mpr ⟨visible_append_iff.mpr ⟨visible_quoted key, ?_⟩,
        visible_compactMembers rest⟩
      exact visible_cons_iff.mpr ⟨by decide, visible_compactChars value⟩

end

/-! ## Texts on a single line -/

theorem spaces_nil : Spaces [] :=
  List.forall_mem_nil _

theorem listed_compact {α : Type} {R : α → List Char → Prop} {xs : List α}
    {parts : List (List Char)} (all : List.Forall₂ R xs parts) :
    xs = [] ∧ parts = [] ∨ Listed R xs (separated [','] parts) := by
  cases all with
  | nil => exact Or.inl ⟨rfl, rfl⟩
  | cons first others =>
      have listed := listed_separated spaces_nil spaces_nil (.cons first others)
        (List.cons_ne_nil _ _)
      rw [List.nil_append, List.append_nil] at listed
      exact Or.inr listed

mutual

theorem compactChars_written : ∀ d : Json, d.Integral → Written d (compactChars d)
  | .null, _ => .null
  | .bool value, _ => .bool value
  | .number (.integer _), exact => .integer exact
  | .string text, _ => .string text
  | .array items, exact => by
      rw [compactChars]
      rcases listed_compact (compactItems_written items exact) with ⟨rfl, same⟩ | listed
      · rw [same]
        exact .noItems
      · exact .array listed
  | .object members, exact => by
      rw [compactChars]
      rcases listed_compact (compactMembers_written members exact) with ⟨rfl, same⟩ | listed
      · rw [same]
        exact .noMembers
      · exact .object listed

theorem compactItems_written : ∀ items : List Json, IntegralItems items →
    List.Forall₂ Written items (compactItems items)
  | [], _ => .nil
  | item :: rest, exact =>
      .cons (compactChars_written item exact.1) (compactItems_written rest exact.2)

theorem compactMembers_written : ∀ members : List (String × Json), IntegralMembers members →
    List.Forall₂ WrittenMember members (compactMembers members)
  | [], _ => .nil
  | (_, value) :: rest, exact =>
      .cons (.mk spaces_nil (compactChars_written value exact.1))
        (compactMembers_written rest exact.2)

end

/-- What is written on a single line is read back unless it nests too deep. -/
theorem parse?_compact {d : Json} (exact : d.Exact) (shallow : d.depth ≤ depthLimit) :
    parse? d.compact = some d := by
  have read := readDocument_written (compactChars_written d exact.2) shallow spaces_nil
  rw [List.append_nil] at read
  rw [parse?, read?, compact, String.toList_ofList, read, Option.map_some, canonical_eq d exact.1]

theorem compactChars_ne_nil {d : Json} (exact : d.Integral) : compactChars d ≠ [] := by
  obtain ⟨c, more, same, -⟩ := (compactChars_written d exact).begins
  rw [same]
  exact List.cons_ne_nil _ _

end Json

/-! ## Octets -/

namespace Utf8

/-- The octet of a line feed is that of no other character. -/
theorem line_feed_not_mem {cs : List Char} (free : '\n' ∉ cs) :
    (10 : UInt8) ∉ encode (String.ofList cs) := by
  rw [encode_ofList]
  intro member
  obtain ⟨c, inside, octet⟩ := List.mem_flatMap.mp member
  -- The octets of a character that takes more than one are all large.
  by_cases ascii : c.toNat < 0x80
  · rw [utf8EncodeChar_of_ascii ascii, List.mem_singleton] at octet
    have same : c.toNat = 10 := by
      have value := congrArg UInt8.toNat octet
      simp only [UInt8.toNat_ofNat', UInt8.reduceToNat] at value
      omega
    refine free ?_
    rw [← Char.ofNat_toNat c, same] at inside
    exact inside
  · have large := octet_of_large (Nat.le_of_not_lt ascii) octet
    exact absurd large (by decide)

end Utf8

/-! ## Streams -/

namespace Event

/-- The lines of events, one after another. -/
def stream : List Json → String
  | [] => ""
  | event :: rest => line event ++ stream rest

/-- The line feeds of a stream stand behind its events and nowhere else. -/
theorem splitOn_stream (events : List Json) : Bytes.splitOn 10 (Utf8.encode (stream events))
    = (events.map fun event => Utf8.encode event.compact) ++ [[]] := by
  induction events with
  | nil => rfl
  | cons event rest ih =>
      -- The first line feed is the one behind the first event, since there is none in it.
      have one : Utf8.encode (stream (event :: rest))
          = Utf8.encode event.compact ++ 10 :: Utf8.encode (stream rest) := by
        rw [stream, line, Utf8.encode_append, Utf8.encode_append, List.append_assoc]
        rfl
      have whole : (10 : UInt8) ∉ Utf8.encode event.compact :=
        Utf8.line_feed_not_mem (Json.visible_compactChars event).newline_not_mem
      rw [one, Bytes.splitOn_append_sep, Bytes.splitOn_of_not_mem whole, ih]
      rfl

/-- The line holds the event and nothing else. -/
structure HeldBy (event : Json) (line : Bytes) : Prop where
  something : line ≠ []
  text : ∃ text, Utf8.decode? line = some text ∧ Json.parse? text = some event

theorem heldBy_compact {event : Json} (exact : event.Exact)
    (shallow : event.depth ≤ Json.depthLimit) : HeldBy event (Utf8.encode event.compact) where
  something empty := by
    have blank : event.compact = "" := Utf8.encode_inj empty
    refine Json.compactChars_ne_nil exact.2 ?_
    rw [← String.toList_ofList (l := Json.compactChars event), ← Json.compact, blank]
    rfl
  text := ⟨_, Utf8.decode?_encode _, Json.parse?_compact exact shallow⟩

end Event

namespace CommandLine

/-- Tells one event after another. -/
def tell : List Json → Part Unit
  | [] => pure ()
  | event :: rest => do
      say (Event.line event)
      tell rest

theorem tell_eq (events : List Json) (screen : Screen) : tell events screen
    = .ok () { screen with output := screen.output ++ Event.stream events } := by
  induction events generalizing screen with
  | nil =>
      rw [Event.stream, String.append_empty]
      rfl
  | cons event rest ih =>
      have first : tell (event :: rest) screen
          = tell rest { screen with output := screen.output ++ Event.line event } := rfl
      rw [first, ih, Event.stream, String.append_assoc]

/-- Behind what was told before, the line feeds of a stream leave one line for each event, in which
the event is found, and nothing behind the last one. -/
theorem stream_taken_apart {events : List Json}
    (writable : ∀ event ∈ events, event.Exact ∧ event.depth ≤ Json.depthLimit) (screen : Screen) :
    ∃ told lines, tell events screen = .ok () { screen with output := screen.output ++ told }
      ∧ Bytes.splitOn 10 (Utf8.encode told) = lines ++ [[]]
      ∧ List.Forall₂ Event.HeldBy events lines := by
  refine ⟨Event.stream events, _, tell_eq events screen, Event.splitOn_stream events, ?_⟩
  rw [List.forall₂_map_right_iff, List.forall₂_same]
  intro event member
  obtain ⟨exact, shallow⟩ := writable event member
  exact Event.heldBy_compact exact shallow

/-! ### Events that are hard to tell apart -/

namespace Broken

/-- Keys and strings with line feeds, quotes and control characters. -/
def events : List Json :=
  [ .object [("\n", .string "a\nb\r\n\"\\"), ("line", .number (.integer 18446744073709551615))],
    .string "\x00\x1f\u2028",
    .array [] ]

theorem writable : ∀ event ∈ events, event.Exact ∧ event.depth ≤ Json.depthLimit := by
  simp only [events, List.forall_mem_cons, Json.exact_object_iff, Json.exact_array_iff,
    Dictionary.sorted_iff_keys]
  exact ⟨⟨⟨by decide, Json.exact_string _, ⟨trivial, by simp [Json.Integral]⟩,
      List.forall_mem_nil _⟩, by decide⟩,
    ⟨Json.exact_string _, by decide⟩, ⟨List.forall_mem_nil _, by decide⟩, List.forall_mem_nil _⟩

/-- The escapes of three events leave three lines. -/
theorem three_lines : (∀ event ∈ events, event.Exact ∧ event.depth ≤ Json.depthLimit)
    ∧ ∃ told lines, tell events ⟨⟨[], []⟩, "", ""⟩ = .ok () ⟨⟨[], []⟩, told, ""⟩
      ∧ Bytes.splitOn 10 (Utf8.encode told) = lines ++ [[]] ∧ lines.length = 3 := by
  obtain ⟨told, lines, run, split, held⟩ := stream_taken_apart writable ⟨⟨[], []⟩, "", ""⟩
  rw [String.empty_append] at run
  exact ⟨writable, told, lines, run, split, held.length_eq.symm⟩

end Broken

end CommandLine
end StackSynth
