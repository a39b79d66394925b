import StackSynth.Json.Outline
import StackSynth.Proofs.Parsing

/-!
# Outlining — the outline of what is a document

Texts that are documents are read in two ways, as documents and as outlines.  Both readers go
through such a text alike, so that the outline of a document misses nothing of it.

* `Json.outlined` — a document as an outline;
* `Json.Outline.readValue_outlined` — what is read as a document is read as its outline;
* `Json.Outline.ofText_pretty` — the outline of what is written in lines.
-/

namespace StackSynth
namespace Json

open Outline (orBroken)

mutual

/-- The outline of a document, in which nothing is broken. -/
def outlined : Json → Outline
  | .null => .null
  | .bool value => .bool value
  | .number value => .number (some value)
  | .string value => .string (some value)
  | .array items => .array (outlinedItems items)
  | .object members => .object (outlinedMembers members)

def outlinedItems : List Json → List Outline
  | [] => []
  | item :: rest => outlined item :: outlinedItems rest

def outlinedMembers : List (String × Json) → List (Option String × Outline)
  | [] => []
  | (key, value) :: rest => (some key, outlined value) :: outlinedMembers rest

end

theorem outlinedItems_eq (items : List Json) : outlinedItems items = items.map outlined := by
  induction items with
  | nil => rfl
  | cons item rest ih => rw [outlinedItems, ih, List.map_cons]

theorem outlinedMembers_eq (members : List (String × Json)) :
    outlinedMembers members = members.map fun member => (some member.1, outlined member.2) := by
  induction members with
  | nil => rfl
  | cons member rest ih => rw [outlinedMembers, ih, List.map_cons]

namespace Outline

/-! ## Scalars -/

theorem afterString_unit {a b c d : Char} {n : Nat} {rest : List Char}
    (quad : hexQuad? a b c d = some n) :
    afterString ('\\' :: 'u' :: a :: b :: c :: d :: rest) = afterString rest := by
  rw [afterString, quad]
  rfl

/-- A text that can be read has an end. -/
theorem afterString_of_read {cs text rest : List Char}
    (read : readStringBody cs = some (text, rest)) : afterString cs = some rest := by
  fun_induction readStringBody cs generalizing text rest with
  | case1 => cases read
  | case2 more =>
      obtain ⟨-, rfl⟩ := Prod.mk.inj (Option.some.inj read)
      rfl
  | case3 a b c d more pair single =>
      obtain ⟨n, quad, read⟩ := Option.bind_eq_some_iff.mp read
      rw [afterString_unit quad]
      split at read
      · -- Both halves of a pair are delimited one by one.
        split at read
        · obtain ⟨m, quad', read⟩ := Option.bind_eq_some_iff.mp read
          split at read
          · obtain ⟨⟨cs, after⟩, body, read⟩ := Option.bind_eq_some_iff.mp read
            obtain ⟨-, rfl⟩ := Prod.mk.inj (Option.some.inj read)
            rw [afterString_unit quad']
            exact pair body
          · cases read
        · cases read
      · split at read
        · cases read
        · obtain ⟨⟨cs, after⟩, body, read⟩ := Option.bind_eq_some_iff.mp read
          obtain ⟨-, rfl⟩ := Prod.mk.inj (Option.some.inj read)
          exact single body
  | case4 c more other ih =>
      obtain ⟨plain, known, read⟩ := Option.bind_eq_some_iff.mp read
      obtain ⟨⟨cs, after⟩, body, read⟩ := Option.bind_eq_some_iff.mp read
      obtain ⟨-, rfl⟩ := Prod.mk.inj (Option.some.inj read)
      rw [afterString, known]
      · exact ih body
      · exact other
  | case5 => cases read
  | case6 c more quote escape slash visible ih =>
      obtain ⟨⟨cs, after⟩, body, read⟩ := Option.bind_eq_some_iff.mp read
      obtain ⟨-, rfl⟩ := Prod.mk.inj (Option.some.inj read)
      rw [afterString, if_neg visible]
      · exact ih body
      · exact quote
      · exact escape
      · exact slash

theorem readText_outlined {cs rest : List Char} {text : String}
    (read : readString ('"' :: cs) = some (text, rest)) : readText cs = some (some text, rest) := by
  obtain ⟨⟨body, after⟩, known, same⟩ := Option.bind_eq_some_iff.mp read
  obtain ⟨rfl, rfl⟩ := Prod.mk.inj (Option.some.inj same)
  rw [readText, afterString_of_read known, known]
  rfl

theorem readScalar_outlined {cs rest : List Char} {d : Json}
    (read : Json.readScalar cs = some (d, rest)) : readScalar cs = (d.outlined, rest) := by
  unfold Json.readScalar at read
  -- The branches of the reading are those of the outline, which tests the same first letter.
  split at read
  · obtain ⟨⟨text, after⟩, known, same⟩ := Option.map_eq_some_iff.mp read
    obtain ⟨rfl, rfl⟩ := Prod.mk.inj same
    rw [readScalar, readText_outlined known]
    rfl
  · obtain ⟨rfl, known⟩ := readWord_ok read
    rw [readScalar, known]
    rfl
  · obtain ⟨rfl, known⟩ := readWord_ok read
    rw [readScalar, known]
    rfl
  · obtain ⟨rfl, known⟩ := readWord_ok read
    rw [readScalar, known]
    rfl
  · rename_i quote n t f
    obtain ⟨⟨number, after⟩, known, same⟩ := Option.map_eq_some_iff.mp read
    obtain ⟨rfl, rfl⟩ := Prod.mk.inj same
    obtain ⟨⟨numeral, after⟩, written, same⟩ := Option.bind_eq_some_iff.mp known
    obtain ⟨value, worth, same⟩ := Option.bind_eq_some_iff.mp same
    obtain ⟨rfl, rfl⟩ := Prod.mk.inj (Option.some.inj same)
    rw [readScalar, written]
    · simp [orBroken, worth, outlined]
    · exact quote
    · exact n
    · exact t
    · exact f

/-! ## Containers -/

section

variable {α β : Type} {item : Reader α} {element : List Char → β × List Char} {f : α → β}
  {broken : β} {closeMark : Char} {cs rest : List Char} {xs : List α}
  (same : ∀ {cs x rest}, item cs = some (x, rest) → element cs = (f x, rest))

include same

theorem readElements_outlined (read : readSeparated item closeMark cs = some (xs, rest)) :
    readElements element broken closeMark cs = (xs.map f, rest) := by
  induction found : cs.length using Nat.strong_induction_on generalizing cs xs with
  | _ n shorter =>
      subst found
      obtain ⟨x, more, c, others, first, skipped, goes⟩ := readSeparated_cases read
      rw [readElements, same first]
      dsimp only
      rw [skipped]
      dsimp only
      rcases goes with ⟨closed, rfl, rfl⟩ | ⟨goes, comma, less, ys, tail, rfl⟩
      · rw [if_pos closed]
        rfl
      · rw [if_neg (ne_true_of_eq_false goes), if_pos (by simp [comma, less]),
          shorter _ less tail rfl]
        rfl

theorem readBody_outlined (read : readContainer item closeMark cs = some (xs, rest)) :
    readBody element broken closeMark cs = (xs.map f, rest) := by
  obtain ⟨c, more, skipped, ⟨closed, rfl, rfl⟩ | ⟨goes, read⟩⟩ := readContainer_cases read
  · rw [readBody, skipped]
    exact if_pos closed
  · rw [readBody, skipped]
    exact (if_neg (ne_true_of_eq_false goes)).trans (readElements_outlined same read)

end

/-! ## Documents -/

theorem readMember_outlined {value : Reader Json} {element : List Char → Outline × List Char}
    (same : ∀ {cs d rest}, value cs = some (d, rest) → element cs = (outlined d, rest))
    {cs rest : List Char} {member : String × Json}
    (read : Json.readMember value cs = some (member, rest)) :
    readMember element cs = ((some member.1, outlined member.2), rest) := by
  obtain ⟨more, others, known, colon, inner⟩ := readMember_cases read
  unfold readString at known
  split at known
  · rename_i text
    rw [readMember, readText_outlined known]
    simp only [colon, same inner]
  · cases known

theorem readValue_outlined {limit : Nat} {cs rest : List Char} {d : Json}
    (read : Json.readValue limit cs = some (d, rest)) :
    readValue limit cs = (outlined d, rest) := by
  induction limit generalizing cs d rest with
  | zero => exact readScalar_outlined read
  | succ limit ih =>
      simp only [Json.readValue] at read
      split at read
      · obtain ⟨⟨items, after⟩, inside, same⟩ := Option.map_eq_some_iff.mp read
        obtain ⟨rfl, rfl⟩ := Prod.mk.inj same
        rw [readValue, readBody_outlined ih inside, ← outlinedItems_eq]
        rfl
      · obtain ⟨⟨members, after⟩, inside, same⟩ := Option.map_eq_some_iff.mp read
        obtain ⟨rfl, rfl⟩ := Prod.mk.inj same
        rw [readValue, readBody_outlined (readMember_outlined ih) inside, ← outlinedMembers_eq]
        rfl
      · rename_i array object
        rw [readValue]
        · exact readScalar_outlined read
        · exact array
        · exact object

/-! ## Whole texts -/

theorem length_le_separated {part separator : List Char} {parts : List (List Char)}
    (member : part ∈ parts) : part.length ≤ (separated separator parts).length := by
  induction parts with
  | nil => cases member
  | cons first rest ih =>
      cases rest with
      | nil =>
          obtain rfl := List.mem_singleton.mp member
          exact Nat.le_refl _
      | cons next others =>
          have longer : (separated separator (first :: next :: others)).length
              = first.length + separator.length
                + (separated separator (next :: others)).length := by
            rw [← List.length_append, ← List.length_append]
            rfl
          rcases List.mem_cons.mp member with rfl | member
          · omega
          · have := ih member
            omega

theorem length_lt_container {part : List Char} {parts : List (List Char)}
    {openMark closeMark : Char} {level : Nat} (member : part ∈ parts) :
    part.length < (container openMark closeMark level parts).length := by
  have inside : part.length ≤ (separated (',' :: newline (level + 1)) parts).length :=
    length_le_separated member
  have some : parts.isEmpty = false := by
    cases member <;> rfl
  simp only [container, some, Bool.false_eq_true, if_false, List.length_cons, List.length_append]
  omega

mutual

/-- No text is shorter than its document is deep. -/
theorem depth_le_length : ∀ (d : Json) (level : Nat), d.depth ≤ (prettyChars level d).length
  | .null, _ => Nat.zero_le _
  | .bool _, _ => Nat.zero_le _
  | .number _, _ => Nat.zero_le _
  | .string _, _ => Nat.zero_le _
  | .array items, level => by
      rw [depth, prettyChars]
      rcases depthItems_le_length items (level + 1) with none | ⟨part, member, deep⟩
      · rw [none]
        cases parts : prettyItems (level + 1) items <;> simp [container]
      · exact Nat.lt_of_le_of_lt deep (length_lt_container member)
  | .object members, level => by
      rw [depth, prettyChars]
      rcases depthMembers_le_length members (level + 1) with none | ⟨part, member, deep⟩
      · rw [none]
        cases parts : prettyMembers (level + 1) members <;> simp [container]
      · exact Nat.lt_of_le_of_lt deep (length_lt_container member)

theorem depthItems_le_length : ∀ (items : List Json) (level : Nat), depthItems items = 0
    ∨ ∃ part ∈ prettyItems level items, depthItems items ≤ part.length
  | [], _ => Or.inl rfl
  | item :: items, level => by
      have first := depth_le_length item level
      rw [depthItems, prettyItems]
      rcases depthItems_le_length items level with none | ⟨part, member, deep⟩
      · exact Or.inr ⟨_, List.mem_cons_self, by omega⟩
      · by_cases deeper : depthItems items ≤ depth item
        · exact Or.inr ⟨_, List.mem_cons_self, by omega⟩
        · exact Or.inr ⟨part, List.mem_cons_of_mem _ member, by omega⟩

theorem depthMembers_le_length : ∀ (members : List (String × Json)) (level : Nat),
    depthMembers members = 0
      ∨ ∃ part ∈ prettyMembers level members, depthMembers members ≤ part.length
  | [], _ => Or.inl rfl
  | (key, value) :: members, level => by
      have first := depth_le_length value level
      have own : (prettyChars level value).length
          ≤ (quoted key ++ ':' :: ' ' :: prettyChars level value).length := by
        simp only [List.length_append, List.length_cons]
        omega
      rw [depthMembers, prettyMembers]
      rcases depthMembers_le_length members level with none | ⟨part, member, deep⟩
      · exact Or.inr ⟨_, List.mem_cons_self, by omega⟩
      · by_cases deeper : depthMembers members ≤ depth value
        · exact Or.inr ⟨_, List.mem_cons_self, by omega⟩
        · exact Or.inr ⟨part, List.mem_cons_of_mem _ member, by omega⟩

end

/-- However deep a document is, its text has all of it as its outline. -/
theorem ofText_pretty {d : Json} (exact : d.Integral) :
    ofText (d.pretty ++ "\n") = (outlined d, []) := by
  have written := prettyChars_written d 0 exact
  have text : (d.pretty ++ "\n").toList = prettyChars 0 d ++ ['\n'] := by simp [pretty]
  have deep : d.depth ≤ (prettyChars 0 d ++ ['\n']).length :=
    (depth_le_length d 0).trans (by simp)
  have read := readValue_written written deep (show Ends ['\n'] by simp [Ends])
  rw [ofText]
  dsimp only
  rw [text, written.begins.skip, readValue_outlined read]
  rfl

end Outline
end Json
end StackSynth
