import Mathlib
import StackSynth.Json.Parser
import StackSynth.Json.Printer
import StackSynth.Proofs.Encoding

/-!
# Rendering — the texts of a document

A text of a document is the texts of its scalars with the marks of its containers around them, and
with any space between these parts.  What is written is such a text, and its scalars are read from
it as they were.

* `Json.Integral`, `Json.depth` — documents whose numbers are exact, and how deep they nest;
* `Json.Written` — the texts of a document;
* `Json.prettyChars_written` — what is written is one of them;
* `Json.readNumber_integerText`, `readString_quoted` — scalars that are read back.
-/

namespace StackSynth
namespace Json

/-! ## Documents -/

mutual

/-- All numbers are integers that are read exactly. -/
def Integral : Json → Prop
  | .number (.integer value) => -0x8000000000000000 ≤ value ∧ value ≤ 0xFFFFFFFFFFFFFFFF
  | .number (.double _) => False
  | .array items => IntegralItems items
  | .object members => IntegralMembers members
  | .null => True
  | .bool _ => True
  | .string _ => True

def IntegralItems : List Json → Prop
  | [] => True
  | item :: rest => Integral item ∧ IntegralItems rest

def IntegralMembers : List (String × Json) → Prop
  | [] => True
  | (_, value) :: rest => Integral value ∧ IntegralMembers rest

end

mutual

/-- How many containers stand in each other at most. -/
def depth : Json → Nat
  | .array items => depthItems items + 1
  | .object members => depthMembers members + 1
  | .null => 0
  | .bool _ => 0
  | .number _ => 0
  | .string _ => 0

def depthItems : List Json → Nat
  | [] => 0
  | item :: rest => max (depth item) (depthItems rest)

def depthMembers : List (String × Json) → Nat
  | [] => 0
  | (_, value) :: rest => max (depth value) (depthMembers rest)

end

theorem depthItems_le_iff {items : List Json} {n : Nat} :
    depthItems items ≤ n ↔ ∀ item ∈ items, depth item ≤ n := by
  induction items with
  | nil => simp [depthItems]
  | cons item rest ih => rw [depthItems, Nat.max_le, ih, List.forall_mem_cons]

theorem depthMembers_le_iff {members : List (String × Json)} {n : Nat} :
    depthMembers members ≤ n ↔ ∀ member ∈ members, depth member.2 ≤ n := by
  induction members with
  | nil => simp [depthMembers]
  | cons member rest ih => rw [depthMembers, Nat.max_le, ih, List.forall_mem_cons]

/-! ## Texts of a document -/

/-- Nothing but space, as it may stand between the parts of a text. -/
def Spaces (cs : List Char) : Prop :=
  ∀ c ∈ cs, isSpace c = true

/-- One or more elements with commas between them and any space around them. -/
inductive Listed {α : Type} (R : α → List Char → Prop) : List α → List Char → Prop where
  | last {x : α} {space cs after : List Char} : Spaces space → R x cs → Spaces after →
      Listed R [x] (space ++ (cs ++ after))
  | next {x : α} {xs : List α} {space cs rest : List Char} : Spaces space → R x cs →
      Listed R xs rest → Listed R (x :: xs) (space ++ (cs ++ ',' :: rest))

mutual

/-- The characters are a text of the document. -/
inductive Written : Json → List Char → Prop where
  | null : Written .null nullText
  | bool (value : Bool) : Written (.bool value) (boolText value)
  | integer {value : Int} : Integral (.number (.integer value)) →
      Written (.number (.integer value)) (integerText value)
  | string (text : String) : Written (.string text) (quoted text)
  | noItems : Written (.array []) ['[', ']']
  | array {items : List Json} {cs : List Char} : Listed Written items cs →
      Written (.array items) ('[' :: (cs ++ [']']))
  | noMembers : Written (.object []) ['{', '}']
  | object {members : List (String × Json)} {cs : List Char} : Listed WrittenMember members cs →
      Written (.object members) ('{' :: (cs ++ ['}']))

inductive WrittenMember : String × Json → List Char → Prop where
  | mk {key : String} {value : Json} {gap cs : List Char} : Spaces gap → Written value cs →
      WrittenMember (key, value) (quoted key ++ ':' :: (gap ++ cs))

end

/-! ### What is written -/

theorem spaces_newline (level : Nat) : Spaces (newline level) := by
  intro c member
  rcases List.mem_cons.mp member with rfl | member
  · rfl
  · rw [List.eq_of_mem_replicate member]
    rfl

theorem spaces_one : Spaces [' '] := by
  simp [Spaces, isSpace]

theorem listed_separated {α : Type} {R : α → List Char → Prop} {xs : List α}
    {parts : List (List Char)} {space after : List Char} (spaces : Spaces space)
    (behind : Spaces after) (all : List.Forall₂ R xs parts) (some : parts ≠ []) :
    Listed R xs (space ++ (separated (',' :: space) parts ++ after)) := by
  induction all with
  | nil => exact absurd rfl some
  | @cons x part xs parts first others ih =>
      cases others with
      | nil => exact .last spaces first behind
      | @cons y other ys parts second others =>
          have rest := ih (List.cons_ne_nil _ _)
          have split : separated (',' :: space) (part :: other :: parts)
              = part ++ ',' :: space ++ separated (',' :: space) (other :: parts) := rfl
          rw [split, List.append_assoc, List.append_assoc]
          exact .next spaces first rest

/-- A container is written without any space if it is empty, and one part a line otherwise. -/
theorem container_cases {α : Type} {R : α → List Char → Prop} {xs : List α}
    {parts : List (List Char)} (openMark closeMark : Char) (level : Nat)
    (all : List.Forall₂ R xs parts) :
    xs = [] ∧ container openMark closeMark level parts = [openMark, closeMark]
      ∨ ∃ cs, Listed R xs cs
        ∧ container openMark closeMark level parts = openMark :: (cs ++ [closeMark]) := by
  unfold container
  cases all with
  | nil => exact Or.inl ⟨rfl, rfl⟩
  | cons first others =>
      have listed := listed_separated (spaces_newline (level + 1)) (spaces_newline level)
        (.cons first others) (List.cons_ne_nil _ _)
      refine Or.inr ⟨_, listed, ?_⟩
      simp

mutual

theorem prettyChars_written : ∀ (d : Json) (level : Nat), d.Integral →
    Written d (prettyChars level d)
  | .null, _, _ => .null
  | .bool value, _, _ => .bool value
  | .number (.integer _), _, exact => .integer exact
  | .string text, _, _ => .string text
  | .array items, level, exact => by
      have all := prettyItems_written items (level + 1) exact
      rw [prettyChars]
      rcases container_cases '[' ']' level all with ⟨rfl, same⟩ | ⟨cs, listed, same⟩
      · rw [same]
        exact .noItems
      · rw [same]
        exact .array listed
  | .object members, level, exact => by
      have all := prettyMembers_written members (level + 1) exact
      rw [prettyChars]
      rcases container_cases '{' '}' level all with ⟨rfl, same⟩ | ⟨cs, listed, same⟩
      · rw [same]
        exact .noMembers
      · rw [same]
        exact .object listed

theorem prettyItems_written : ∀ (items : List Json) (level : Nat), IntegralItems items →
    List.Forall₂ Written items (prettyItems level items)
  | [], _, _ => .nil
  | item :: items, level, exact =>
      .cons (prettyChars_written item level exact.1) (prettyItems_written items level exact.2)

theorem prettyMembers_written : ∀ (members : List (String × Json)) (level : Nat),
    IntegralMembers members → List.Forall₂ WrittenMember members (prettyMembers level members)
  | [], _, _ => .nil
  | (_, value) :: members, level, exact =>
      .cons (.mk spaces_one (prettyChars_written value level exact.1))
        (prettyMembers_written members level exact.2)

end

/-! ## Scalars read back -/

/-- No number goes on here. -/
def Ends (cs : List Char) : Prop :=
  ∀ c ∈ cs.head?, c.isDigit = false ∧ c ≠ '.' ∧ c ≠ 'e' ∧ c ≠ 'E'

/-! ### Numbers -/

theorem digitsValue_naturalText (n : Nat) : digitsValue (naturalText n) = n := by
  have same : ∀ (ds : List Char) (m : Nat),
      ds.foldl (fun n d => n * 10 + digitValue d) m = Nat.ofDigitChars 10 ds m := by
    intro ds
    induction ds with
    | nil => exact fun m => rfl
    | cons d ds ih =>
        intro m
        rw [List.foldl_cons, ih, Nat.ofDigitChars_cons, Nat.mul_comm]
        rfl
  rw [digitsValue, same, naturalText]
  exact Nat.ofDigitChars_toDigits (by decide) (by decide)

theorem isDigit_naturalText {n : Nat} {c : Char} (member : c ∈ naturalText n) :
    c.isDigit = true :=
  Nat.isDigit_of_mem_toDigits (by decide) (by decide) member

/-- Only the number zero begins with a zero, which then stands alone. -/
theorem naturalText_cases (n : Nat) :
    ∃ d ds, naturalText n = d :: ds ∧ (d = '0' → n = 0 ∧ ds = []) := by
  induction n using Nat.strong_induction_on with
  | _ n shorter =>
      by_cases small : n < 10
      · refine ⟨n.digitChar, [], Nat.toDigits_of_lt_base small, fun zero => ⟨?_, rfl⟩⟩
        have digits : ∀ m < 10, m.digitChar = '0' → m = 0 := by decide
        exact digits n small zero
      · have large : 10 ≤ n := Nat.not_lt.mp small
        obtain ⟨d, ds, front, zero⟩ := shorter (n / 10) (by omega)
        refine ⟨d, ds ++ [(n % 10).digitChar], ?_, fun same => ?_⟩
        · rw [naturalText, Nat.toDigits_of_base_le (by decide) large]
          exact congrArg (· ++ [(n % 10).digitChar]) front
        · have := (zero same).1
          omega

theorem spanDigits_append {ds rest : List Char} (digits : ∀ c ∈ ds, c.isDigit = true)
    (ends : Ends rest) : spanDigits (ds ++ rest) = (ds, rest) := by
  have stops : rest.takeWhile Char.isDigit = [] ∧ rest.dropWhile Char.isDigit = rest := by
    cases rest with
    | nil => exact ⟨rfl, rfl⟩
    | cons c cs => simp [(ends c rfl).1]
  rw [spanDigits, List.takeWhile_append_of_pos digits, List.dropWhile_append_of_pos digits, stops.1,
    stops.2, List.append_nil]

theorem readWhole_naturalText {rest : List Char} (n : Nat) (ends : Ends rest) :
    readWhole (naturalText n ++ rest) = some (naturalText n, rest) := by
  have span := spanDigits_append (fun _ => isDigit_naturalText (n := n)) ends
  obtain ⟨d, ds, same, zero⟩ := naturalText_cases n
  unfold readWhole
  dsimp only
  rw [span, same]
  split
  · rename_i wrong
    cases wrong
  · rename_i wrong
    obtain ⟨digits, -⟩ := Prod.mk.inj wrong
    obtain ⟨first, others⟩ := List.cons.inj digits
    rw [(zero first).2] at others
    cases others
  · rename_i found
    obtain ⟨rfl, rfl⟩ := Prod.mk.inj found
    rfl

theorem readFraction_ends {rest : List Char} (ends : Ends rest) :
    readFraction rest = some ([], rest) := by
  unfold readFraction
  split
  · exact absurd rfl (ends _ rfl).2.1
  · rfl

theorem readExponent_ends {rest : List Char} (ends : Ends rest) :
    readExponent rest = some (none, rest) := by
  cases rest with
  | nil => rfl
  | cons c cs =>
      have other := (ends c rfl).2.2
      simp [readExponent, other]

theorem sign_naturalText {rest : List Char} (n : Nat) :
    sign (naturalText n ++ rest) = (false, naturalText n ++ rest) := by
  obtain ⟨d, ds, same, -⟩ := naturalText_cases n
  have digit : d.isDigit = true := isDigit_naturalText (n := n) (same ▸ List.mem_cons_self)
  rw [same, List.cons_append]
  unfold sign
  split
  · rename_i minus
    obtain ⟨rfl, -⟩ := List.cons.inj minus
    cases digit
  · rfl

theorem readNumeral_integerText {rest : List Char} (value : Int) (ends : Ends rest) :
    readNumeral (integerText value ++ rest)
      = some (⟨decide (value < 0), naturalText value.natAbs, [], none⟩, rest) := by
  have unsigned : ∀ n, readWhole (naturalText n ++ rest) = some (naturalText n, rest) :=
    fun n => readWhole_naturalText n ends
  cases value with
  | ofNat n =>
      simp [readNumeral, integerText, sign_naturalText, unsigned, readFraction_ends ends,
        readExponent_ends ends]
  | negSucc n =>
      simp [readNumeral, integerText, sign, unsigned, readFraction_ends ends,
        readExponent_ends ends]

theorem value?_integerText {value : Int} (exact : Integral (.number (.integer value))) :
    Numeral.value? ⟨decide (value < 0), naturalText value.natAbs, [], none⟩
      = some (.integer value) := by
  obtain ⟨least, most⟩ := exact
  have fits : value.natAbs ≤ maxWord ∧ (value < 0 → value.natAbs ≠ 0
      ∧ value.natAbs ≤ 0x8000000000000000) := by
    unfold maxWord
    omega
  have signed : (if value < 0 then -(value.natAbs : Int) else value.natAbs) = value := by
    split <;> omega
  unfold Numeral.value?
  dsimp only
  rw [digitsValue_naturalText, if_pos]
  · simp only [decide_eq_true_eq, signed]
  · simp only [List.isEmpty_nil, Option.isNone_none, Bool.and_self, Bool.true_and, Bool.and_eq_true,
      decide_eq_true_eq, Bool.not_eq_true', Bool.and_eq_false_imp, Bool.or_eq_false_iff,
      beq_eq_false_iff_ne, decide_eq_false_iff_not, Nat.not_lt]
    exact fits

theorem readNumber_integerText {rest : List Char} {value : Int}
    (exact : Integral (.number (.integer value))) (ends : Ends rest) :
    readNumber (integerText value ++ rest) = some (.integer value, rest) := by
  unfold readNumber
  simp [readNumeral_integerText value ends, value?_integerText exact]

/-! ### Strings -/

theorem readStringBody_plain {c : Char} {rest : List Char} (quote : c ≠ '"') (slash : c ≠ '\\')
    (visible : 0x20 ≤ c.toNat) :
    readStringBody (c :: rest) = (readStringBody rest).map fun p => (c :: p.1, p.2) := by
  have stays : ¬ (c == '\\' || c.toNat < 0x20) = true := by simp [slash, visible]
  rw [readStringBody, if_neg stays]
  · cases readStringBody rest <;> rfl
  · exact quote
  · rintro a b d e more rfl
    exact absurd rfl slash
  · rintro d more rfl
    exact absurd rfl slash

theorem readStringBody_short {c d : Char} {rest : List Char} (short : unescaped? c = some d)
    (other : c ≠ 'u') :
    readStringBody ('\\' :: c :: rest) = (readStringBody rest).map fun p => (d :: p.1, p.2) := by
  rw [readStringBody, short]
  · cases readStringBody rest <;> rfl
  · rintro a b d e more rfl
    exact absurd rfl other

theorem readStringBody_control {c : Char} {rest : List Char} (control : c.toNat < 0x20) :
    readStringBody ('\\' :: 'u' :: '0' :: '0' :: Bytes.hexDigit (c.toNat / 16)
        :: Bytes.hexDigit (c.toNat % 16) :: rest)
      = (readStringBody rest).map fun p => (c :: p.1, p.2) := by
  have zero : Bytes.hexValue? '0' = some 0 := rfl
  have quad : hexQuad? '0' '0' (Bytes.hexDigit (c.toNat / 16)) (Bytes.hexDigit (c.toNat % 16))
      = some c.toNat := by
    simp only [hexQuad?, zero, Bytes.hexValue?_hexDigit _ (show c.toNat / 16 < 16 by omega),
      Bytes.hexValue?_hexDigit _ (show c.toNat % 16 < 16 by omega), bind, Option.bind, pure]
    exact congrArg some (by omega)
  have high : isHighSurrogate c.toNat = false := by simp [isHighSurrogate]; omega
  have low : isLowSurrogate c.toNat = false := by simp [isLowSurrogate]; omega
  rw [readStringBody, quad]
  simp only [bind, Option.bind, high, low, Bool.false_eq_true, if_false, Char.ofNat_toNat]
  cases readStringBody rest <;> rfl

theorem readStringBody_escaped (c : Char) (rest : List Char) :
    readStringBody (escaped c ++ rest) = (readStringBody rest).map fun p => (c :: p.1, p.2) := by
  unfold escaped
  split
  case h_8 quote slash _ _ _ _ _ =>
    split
    · rename_i control
      exact readStringBody_control control
    · rename_i visible
      exact readStringBody_plain quote slash (Nat.not_lt.mp visible)
  all_goals exact readStringBody_short rfl (by decide)

theorem readStringBody_quoted (cs rest : List Char) :
    readStringBody (cs.flatMap escaped ++ '"' :: rest) = some (cs, rest) := by
  induction cs with
  | nil => rfl
  | cons c cs ih =>
      rw [List.flatMap_cons, List.append_assoc, readStringBody_escaped, ih]
      rfl

theorem readString_quoted (text : String) (rest : List Char) :
    readString (quoted text ++ rest) = some (text, rest) := by
  have body := readStringBody_quoted text.toList rest
  rw [quoted, List.cons_append, List.append_assoc, List.singleton_append, readString, body]
  simp

end Json
end StackSynth
