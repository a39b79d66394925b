import StackSynth.Proofs.Dictionary
import StackSynth.Proofs.Rendering

/-!
# Parsing — the text of a document reads back

Whatever space stands in a text of a document, the document is read from it, if it does not nest
deeper than the reader goes.

* `Json.readSeparated_listed`, `readContainer_listed` — the elements of a container;
* `Json.readValue_written` — what is read from a text of a document;
* `Json.readSeparated_cases`, `readContainer_cases`, `readMember_cases` — what stood in the text
  that was read;
* `Json.depth_le_of_readValue` — how deep it may nest;
* `Json.parse?_pretty_iff` — which documents are read back when they are written in lines.
-/

namespace StackSynth
namespace Json

/-! ## Containers read back -/

theorem skipSpace_append {space cs : List Char} (spaces : Spaces space) :
    skipSpace (space ++ cs) = skipSpace cs :=
  List.dropWhile_append_of_pos spaces

theorem length_skipSpace_le (cs : List Char) : (skipSpace cs).length ≤ cs.length :=
  (List.dropWhile_sublist isSpace).length_le

theorem skipSpace_cons {c : Char} {cs : List Char} (other : isSpace c = false) :
    skipSpace (c :: cs) = c :: cs := by
  simp [skipSpace, other]

theorem ends_append {space cs : List Char} (spaces : Spaces space) (ends : Ends cs) :
    Ends (space ++ cs) := by
  cases space with
  | nil => exact ends
  | cons c more =>
      intro d head
      obtain rfl := Option.some.inj head
      have isSpace := spaces c List.mem_cons_self
      simp only [Json.isSpace, Bool.or_eq_true, beq_iff_eq] at isSpace
      rcases isSpace with ((rfl | rfl) | rfl) | rfl <;> decide

/-- A mark that closes a container. -/
def Closes (c : Char) : Prop :=
  c = ']' ∨ c = '}'

/-- The text begins, and neither with space nor with a closing mark. -/
def Begins (cs : List Char) : Prop :=
  ∃ c more, cs = c :: more ∧ isSpace c = false ∧ ¬ Closes c

theorem begins_cons {c : Char} {cs : List Char} (space : isSpace c = false) (array : c ≠ ']')
    (object : c ≠ '}') : Begins (c :: cs) :=
  ⟨c, cs, rfl, space, not_or.mpr ⟨array, object⟩⟩

theorem Begins.skip {cs rest : List Char} (begins : Begins cs) :
    skipSpace (cs ++ rest) = cs ++ rest := by
  obtain ⟨c, more, rfl, other, -⟩ := begins
  exact skipSpace_cons other

theorem begins_digit {c : Char} {cs : List Char} (digit : c.isDigit = true) : Begins (c :: cs) := by
  have other : ∀ {d : Char}, d.isDigit = false → c ≠ d := by
    rintro d noDigit rfl
    exact Bool.noConfusion (digit.symm.trans noDigit)
  refine begins_cons ?_ (other rfl) (other rfl)
  simp only [isSpace, Bool.or_eq_false_iff, beq_eq_false_iff_ne]
  exact ⟨⟨⟨other rfl, other rfl⟩, other rfl⟩, other rfl⟩

theorem Written.begins {d : Json} {cs : List Char} (written : Written d cs) : Begins cs := by
  cases written with
  | null => exact begins_cons rfl (by decide) (by decide)
  | bool value => cases value <;> exact begins_cons rfl (by decide) (by decide)
  | @integer value exact =>
      cases value with
      | ofNat n =>
          obtain ⟨c, ds, same, -⟩ := naturalText_cases n
          rw [integerText, same]
          exact begins_digit (isDigit_naturalText (n := n) (same ▸ List.mem_cons_self))
      | negSucc n => exact begins_cons rfl (by decide) (by decide)
  | string text => exact begins_cons rfl (by decide) (by decide)
  | noItems => exact begins_cons rfl (by decide) (by decide)
  | array listed => exact begins_cons rfl (by decide) (by decide)
  | noMembers => exact begins_cons rfl (by decide) (by decide)
  | object listed => exact begins_cons rfl (by decide) (by decide)

theorem WrittenMember.begins {member : String × Json} {cs : List Char}
    (written : WrittenMember member cs) : Begins cs := by
  cases written
  exact begins_cons rfl (by decide) (by decide)

section

variable {α : Type} {R : α → List Char → Prop} {item : Reader α} {closeMark : Char} {xs : List α}
  {cs : List Char} (closes : Closes closeMark) (begins : ∀ {x cs}, R x cs → Begins cs)
  (reads : ∀ x ∈ xs, ∀ {cs rest}, R x cs → Ends rest → item (cs ++ rest) = some (x, rest))

include closes begins reads

/-- Space in front of the elements is passed over. -/
theorem readSeparated_listed (listed : Listed R xs cs) {input rest : List Char}
    (same : skipSpace input = skipSpace (cs ++ closeMark :: rest)) :
    readSeparated item closeMark input = some (xs, rest) := by
  -- A number ends in front of either mark.
  have closed : isSpace closeMark = false ∧ Ends (closeMark :: rest) ∧ closeMark ≠ ',' := by
    rcases closes with rfl | rfl <;> exact ⟨rfl, by simp [Ends], by decide⟩
  obtain ⟨notSpace, ends, notComma⟩ := closed
  induction listed generalizing input with
  | @last x space text after spaces written behind =>
      have here : skipSpace input = text ++ (after ++ closeMark :: rest) := by
        rw [same, List.append_assoc, skipSpace_append spaces, List.append_assoc,
          (begins written).skip]
      have read := reads x List.mem_cons_self written (ends_append behind ends)
      have next : skipSpace (after ++ closeMark :: rest) = closeMark :: rest := by
        rw [skipSpace_append behind, skipSpace_cons notSpace]
      rw [readSeparated, here, read]
      simp only [bind, Option.bind]
      split
      · rename_i c more found
        obtain ⟨rfl, rfl⟩ := List.cons.inj (next.symm.trans found)
        simp
      · rename_i found
        cases next.symm.trans found
  | @next x xs space text others spaces written listed ih =>
      have here : skipSpace input = text ++ ',' :: (others ++ closeMark :: rest) := by
        rw [same, List.append_assoc, skipSpace_append spaces, List.append_assoc,
          (begins written).skip, List.cons_append]
      have read := reads x List.mem_cons_self written
        (show Ends (',' :: (others ++ closeMark :: rest)) by simp [Ends])
      -- The recursion of `readSeparated` is on inputs that get shorter.
      have shorter : (others ++ closeMark :: rest).length < input.length := by
        have less := length_skipSpace_le input
        rw [here] at less
        simp only [List.length_append, List.length_cons] at less ⊢
        omega
      have more : readSeparated item closeMark (others ++ closeMark :: rest) = some (xs, rest) :=
        ih (fun x member => reads x (List.mem_cons_of_mem _ member)) rfl
      rw [readSeparated, here, read]
      simp only [bind, Option.bind]
      split
      · rename_i c more' found
        obtain ⟨rfl, rfl⟩ := List.cons.inj found
        have apart : (',' == closeMark) = false := beq_eq_false_iff_ne.mpr (Ne.symm notComma)
        simp only [apart, Bool.false_eq_true, if_false, beq_self_eq_true, if_true, if_pos shorter,
          more, pure]
      · rename_i found
        cases found

theorem readContainer_listed (listed : Listed R xs cs) (rest : List Char) :
    readContainer item closeMark (cs ++ closeMark :: rest) = some (xs, rest) := by
  obtain ⟨c, more, skipped, other⟩ : ∃ c more,
      skipSpace (cs ++ closeMark :: rest) = c :: more ∧ ¬ Closes c := by
    cases listed with
    | last spaces written behind =>
        obtain ⟨c, more, rfl, space, other⟩ := begins written
        rw [List.append_assoc, skipSpace_append spaces]
        exact ⟨c, _, skipSpace_cons space, other⟩
    | next spaces written listed =>
        obtain ⟨c, more, rfl, space, other⟩ := begins written
        rw [List.append_assoc, skipSpace_append spaces]
        exact ⟨c, _, skipSpace_cons space, other⟩
  have apart : (c == closeMark) = false := beq_eq_false_iff_ne.mpr fun same => other (same ▸ closes)
  have again : skipSpace (c :: more) = skipSpace (cs ++ closeMark :: rest) := by
    rw [← skipped]
    exact List.dropWhile_idempotent _ _
  rw [readContainer, skipped]
  simp only [apart, Bool.false_eq_true, if_false]
  exact readSeparated_listed closes begins reads listed again

end

/-! ## Documents read back -/

theorem readMember_written {value : Reader Json} {member : String × Json} {cs rest : List Char}
    (reads : ∀ {cs}, Written member.2 cs → value (cs ++ rest) = some (member.2, rest))
    (written : WrittenMember member cs) : readMember value (cs ++ rest) = some (member, rest) := by
  cases written with
  | @mk key doc gap text spaces written =>
      have skipped : skipSpace (':' :: (gap ++ text) ++ rest) = ':' :: (gap ++ (text ++ rest)) := by
        rw [List.cons_append, skipSpace_cons rfl, List.append_assoc]
      rw [List.append_assoc, readMember, readString_quoted]
      simp only [bind, Option.bind]
      rw [skipped]
      simp only [skipSpace_append spaces, written.begins.skip, reads written, pure]

/-- A number begins with a digit or with its sign. -/
theorem readScalar_integerText {value : Int} {rest : List Char}
    (exact : Integral (.number (.integer value))) (ends : Ends rest) :
    readScalar (integerText value ++ rest) = some (.number (.integer value), rest) := by
  have number := readNumber_integerText exact ends
  obtain ⟨c, more, same, other⟩ : ∃ c more, integerText value ++ rest = c :: more
      ∧ c ∉ ['"', 'n', 't', 'f'] := by
    cases value with
    | ofNat n =>
        obtain ⟨c, ds, same, -⟩ := naturalText_cases n
        have digit : c.isDigit = true := isDigit_naturalText (n := n) (same ▸ List.mem_cons_self)
        refine ⟨c, ds ++ rest, by rw [integerText, same, List.cons_append], fun among => ?_⟩
        simp only [List.mem_cons, List.not_mem_nil, or_false] at among
        rcases among with rfl | rfl | rfl | rfl <;> cases digit
    | negSucc n => exact ⟨'-', _, rfl, by decide⟩
  simp only [List.mem_cons, List.not_mem_nil, or_false, not_or] at other
  obtain ⟨quote, n, t, f⟩ := other
  rw [same] at number ⊢
  rw [readScalar, number]
  · rfl
  · exact fun _ first => quote (List.cons.inj first).1
  · exact fun _ first => n (List.cons.inj first).1
  · exact fun _ first => t (List.cons.inj first).1
  · exact fun _ first => f (List.cons.inj first).1

theorem readScalar_quoted (text : String) (rest : List Char) :
    readScalar (quoted text ++ rest) = some (.string text, rest) := by
  have read : readScalar (quoted text ++ rest)
      = (readString (quoted text ++ rest)).map fun p => (.string p.1, p.2) := rfl
  rw [read, readString_quoted]
  rfl

theorem readValue_scalar {limit : Nat} {c : Char} {cs : List Char} (array : c ≠ '[')
    (object : c ≠ '{') : readValue limit (c :: cs) = readScalar (c :: cs) := by
  cases limit with
  | zero => rfl
  | succ limit =>
      simp only [readValue]
      split
      · rename_i first
        exact absurd (List.cons.inj first).1 array
      · rename_i first
        exact absurd (List.cons.inj first).1 object
      · rfl

theorem readValue_integerText {limit : Nat} {value : Int} {rest : List Char}
    (exact : Integral (.number (.integer value))) (ends : Ends rest) :
    readValue limit (integerText value ++ rest) = some (.number (.integer value), rest) := by
  rw [← readScalar_integerText exact ends]
  cases value with
  | ofNat n =>
      obtain ⟨c, ds, same, -⟩ := naturalText_cases n
      have digit : c.isDigit = true := isDigit_naturalText (n := n) (same ▸ List.mem_cons_self)
      rw [integerText, same, List.cons_append]
      refine readValue_scalar ?_ ?_ <;> rintro rfl <;> cases digit
  | negSucc n => exact readValue_scalar (by decide) (by decide)

theorem readValue_array (limit : Nat) (cs : List Char) : readValue (limit + 1) ('[' :: cs)
    = (readContainer (readValue limit) ']' cs).map fun p => (.array p.1, p.2) := rfl

theorem readValue_object (limit : Nat) (cs : List Char) : readValue (limit + 1) ('{' :: cs)
    = (readContainer (readMember (readValue limit)) '}' cs).map fun p => (.object p.1, p.2) := rfl

/-- Whatever space is in a text, the document is read from it, and what follows is left. -/
theorem readValue_written {limit : Nat} {d : Json} {cs rest : List Char} (written : Written d cs)
    (shallow : d.depth ≤ limit) (ends : Ends rest) :
    readValue limit (cs ++ rest) = some (d, rest) := by
  -- The induction is on the depth that is allowed: an element has one less than its container.
  induction limit generalizing d cs rest with
  | zero =>
      cases written with
      | null => rfl
      | bool value => cases value <;> rfl
      | integer exact => exact readValue_integerText exact ends
      | string text => exact readScalar_quoted text rest
      | noItems => cases shallow
      | array => cases shallow
      | noMembers => cases shallow
      | object => cases shallow
  | succ limit ih =>
      cases written with
      | null => rfl
      | bool value => cases value <;> rfl
      | integer exact => exact readValue_integerText exact ends
      | string text => exact readScalar_quoted text rest
      | noItems => rfl
      | @array items text listed =>
          have reads : ∀ item ∈ items, ∀ {cs rest}, Written item cs → Ends rest →
              readValue limit (cs ++ rest) = some (item, rest) :=
            fun item member _ _ written ends =>
              ih written (depthItems_le_iff.mp (Nat.le_of_succ_le_succ shallow) item member) ends
          have inside := readContainer_listed (Or.inl rfl) Written.begins reads listed rest
          rw [List.cons_append, List.append_assoc, List.singleton_append, readValue_array, inside]
          rfl
      | noMembers => rfl
      | @object members text listed =>
          have reads : ∀ member ∈ members, ∀ {cs rest}, WrittenMember member cs → Ends rest →
              readMember (readValue limit) (cs ++ rest) = some (member, rest) :=
            fun member known _ _ written ends =>
              have below := depthMembers_le_iff.mp (Nat.le_of_succ_le_succ shallow) member known
              readMember_written (fun written => ih written below ends) written
          have inside := readContainer_listed (Or.inr rfl) WrittenMember.begins reads listed rest
          rw [List.cons_append, List.append_assoc, List.singleton_append, readValue_object, inside]
          rfl

/-! ## What has been read -/

theorem readWord_ok {α : Type} {word cs rest : List Char} {value x : α}
    (read : readWord word value cs = some (x, rest)) :
    x = value ∧ ∀ {β : Type} (other : β), readWord word other cs = some (other, rest) := by
  unfold readWord at read ⊢
  split at read
  · rename_i stands
    obtain ⟨rfl, rfl⟩ := Prod.mk.inj (Option.some.inj read)
    exact ⟨rfl, fun other => if_pos stands⟩
  · cases read

theorem readMember_cases {value : Reader Json} {cs rest : List Char} {member : String × Json}
    (read : readMember value cs = some (member, rest)) :
    ∃ more others, readString cs = some (member.1, more) ∧ skipSpace more = ':' :: others
      ∧ value (skipSpace others) = some (member.2, rest) := by
  obtain ⟨⟨key, more⟩, known, read⟩ := Option.bind_eq_some_iff.mp read
  dsimp only at read
  split at read
  · rename_i others colon
    obtain ⟨⟨d, after⟩, inner, read⟩ := Option.bind_eq_some_iff.mp read
    obtain ⟨rfl, rfl⟩ := Prod.mk.inj (Option.some.inj read)
    exact ⟨more, others, known, colon, inner⟩
  · cases read

section

variable {α : Type} {item : Reader α} {closeMark : Char} {cs rest : List Char} {xs : List α}

/-- Behind each item there is the closing mark, or a comma and more items. -/
theorem readSeparated_cases (read : readSeparated item closeMark cs = some (xs, rest)) :
    ∃ x more c others, item (skipSpace cs) = some (x, more) ∧ skipSpace more = c :: others
      ∧ (((c == closeMark) = true ∧ xs = [x] ∧ rest = others)
        ∨ ((c == closeMark) = false ∧ (c == ',') = true ∧ others.length < cs.length
          ∧ ∃ ys, readSeparated item closeMark others = some (ys, rest) ∧ xs = x :: ys)) := by
  rw [readSeparated] at read
  obtain ⟨⟨x, more⟩, first, read⟩ := Option.bind_eq_some_iff.mp read
  dsimp only at read
  split at read
  · rename_i c others skipped
    refine ⟨x, more, c, others, first, skipped, ?_⟩
    split at read
    · rename_i closed
      obtain ⟨rfl, rfl⟩ := Prod.mk.inj (Option.some.inj read)
      exact Or.inl ⟨closed, rfl, rfl⟩
    · rename_i goes
      split at read
      · rename_i comma
        split at read
        · rename_i less
          obtain ⟨⟨ys, last⟩, tail, read⟩ := Option.bind_eq_some_iff.mp read
          obtain ⟨rfl, rfl⟩ := Prod.mk.inj (Option.some.inj read)
          exact Or.inr ⟨eq_false_of_ne_true goes, comma, less, ys, tail, rfl⟩
        · cases read
      · cases read
  · cases read

theorem readContainer_cases (read : readContainer item closeMark cs = some (xs, rest)) :
    ∃ c more, skipSpace cs = c :: more
      ∧ (((c == closeMark) = true ∧ xs = [] ∧ rest = more)
        ∨ ((c == closeMark) = false
          ∧ readSeparated item closeMark (c :: more) = some (xs, rest))) := by
  unfold readContainer at read
  split at read
  · rename_i c more skipped
    refine ⟨c, more, skipped, ?_⟩
    split at read
    · rename_i closed
      obtain ⟨rfl, rfl⟩ := Prod.mk.inj (Option.some.inj read)
      exact Or.inl ⟨closed, rfl, rfl⟩
    · rename_i goes
      exact Or.inr ⟨eq_false_of_ne_true goes, read⟩
  · cases read

end

/-! ## Limits -/

section

variable {α : Type} {item : Reader α} {P : α → Prop} {closeMark : Char} {cs rest : List Char}
  {xs : List α} (holds : ∀ {cs x rest}, item cs = some (x, rest) → P x)

include holds

theorem readSeparated_all (read : readSeparated item closeMark cs = some (xs, rest)) :
    ∀ x ∈ xs, P x := by
  induction found : cs.length using Nat.strong_induction_on generalizing cs xs with
  | _ n shorter =>
      subst found
      obtain ⟨x, more, c, others, first, -, last | ⟨-, -, less, ys, tail, rfl⟩⟩ :=
        readSeparated_cases read
      · obtain ⟨-, rfl, -⟩ := last
        simpa using holds first
      · exact List.forall_mem_cons.mpr ⟨holds first, shorter _ less tail rfl⟩

theorem readContainer_all (read : readContainer item closeMark cs = some (xs, rest)) :
    ∀ x ∈ xs, P x := by
  obtain ⟨c, more, -, ⟨-, rfl, -⟩ | ⟨-, read⟩⟩ := readContainer_cases read
  · exact fun _ member => absurd member List.not_mem_nil
  · exact readSeparated_all holds read

end

theorem depth_of_readScalar {cs rest : List Char} {d : Json}
    (read : readScalar cs = some (d, rest)) : d.depth = 0 := by
  unfold readScalar at read
  split at read
  · obtain ⟨p, -, same⟩ := Option.map_eq_some_iff.mp read
    obtain ⟨rfl, -⟩ := Prod.mk.inj same
    rfl
  · obtain ⟨rfl, -⟩ := readWord_ok read
    rfl
  · obtain ⟨rfl, -⟩ := readWord_ok read
    rfl
  · obtain ⟨rfl, -⟩ := readWord_ok read
    rfl
  · obtain ⟨p, -, same⟩ := Option.map_eq_some_iff.mp read
    obtain ⟨rfl, -⟩ := Prod.mk.inj same
    rfl

/-- What is read nests no deeper than the limit. -/
theorem depth_le_of_readValue {limit : Nat} {cs rest : List Char} {d : Json}
    (read : readValue limit cs = some (d, rest)) : d.depth ≤ limit := by
  induction limit generalizing cs d rest with
  | zero => exact (depth_of_readScalar read).le
  | succ limit ih =>
      simp only [readValue] at read
      split at read
      · obtain ⟨⟨items, after⟩, inside, same⟩ := Option.map_eq_some_iff.mp read
        obtain ⟨rfl, -⟩ := Prod.mk.inj same
        exact Nat.succ_le_succ (depthItems_le_iff.mpr (readContainer_all ih inside))
      · obtain ⟨⟨members, after⟩, inside, same⟩ := Option.map_eq_some_iff.mp read
        obtain ⟨rfl, -⟩ := Prod.mk.inj same
        refine Nat.succ_le_succ (depthMembers_le_iff.mpr (readContainer_all ?_ inside))
        intro cs member rest read
        obtain ⟨_, _, -, -, found⟩ := readMember_cases read
        exact ih found
      · rw [depth_of_readScalar read]
        exact Nat.zero_le _

/-! ## Whole texts -/

mutual

/-- A canonical document is its own canonical form. -/
theorem canonical_eq : ∀ (d : Json), d.Canonical → d.canonical = d
  | .null, _ => rfl
  | .bool _, _ => rfl
  | .number _, _ => rfl
  | .string _, _ => rfl
  | .array items, proper => by rw [canonical, canonicalItems_eq items proper]
  | .object members, proper => by
      rw [canonical, canonicalMembers_eq members proper.2, Dictionary.ofList_of_sorted proper.1]

theorem canonicalItems_eq : ∀ (items : List Json), CanonicalItems items →
    canonicalItems items = items
  | [], _ => rfl
  | item :: items, proper => by
      rw [canonicalItems, canonical_eq item proper.1, canonicalItems_eq items proper.2]

theorem canonicalMembers_eq : ∀ (members : List (String × Json)), CanonicalMembers members →
    canonicalMembers members = members
  | [], _ => rfl
  | (_, value) :: members, proper => by
      rw [canonicalMembers, canonical_eq value proper.1, canonicalMembers_eq members proper.2]

end

mutual

/-- Members that are dropped may be the deepest ones. -/
theorem depth_canonical_le : ∀ (d : Json), d.canonical.depth ≤ d.depth
  | .null => Nat.le_refl _
  | .bool _ => Nat.le_refl _
  | .number _ => Nat.le_refl _
  | .string _ => Nat.le_refl _
  | .array items => by
      rw [canonical, depth, depth]
      exact Nat.succ_le_succ (depthItems_le_iff.mpr (depth_canonicalItems_le items))
  | .object members => by
      rw [canonical, depth, depth]
      exact Nat.succ_le_succ (depthMembers_le_iff.mpr fun member known =>
        depth_canonicalMembers_le members member (Dictionary.mem_of_mem_ofList known))

theorem depth_canonicalItems_le : ∀ (items : List Json),
    ∀ item ∈ canonicalItems items, item.depth ≤ depthItems items
  | [] => by simp [canonicalItems]
  | item :: items => by
      refine List.forall_mem_cons.mpr ⟨?_, fun other member => ?_⟩
      · exact (depth_canonical_le item).trans (Nat.le_max_left _ _)
      · exact (depth_canonicalItems_le items other member).trans (Nat.le_max_right _ _)

theorem depth_canonicalMembers_le : ∀ (members : List (String × Json)),
    ∀ member ∈ canonicalMembers members, member.2.depth ≤ depthMembers members
  | [] => by simp [canonicalMembers]
  | (key, value) :: members => by
      refine List.forall_mem_cons.mpr ⟨?_, fun other member => ?_⟩
      · exact (depth_canonical_le value).trans (Nat.le_max_left _ _)
      · exact (depth_canonicalMembers_le members other member).trans (Nat.le_max_right _ _)

end

theorem depth_le_of_parse? {text : String} {d : Json} (read : parse? text = some d) :
    d.depth ≤ depthLimit := by
  obtain ⟨written, known, rfl⟩ := Option.map_eq_some_iff.mp read
  obtain ⟨⟨found, rest⟩, inside, read⟩ := Option.bind_eq_some_iff.mp known
  dsimp only at read
  split at read
  · obtain rfl := Option.some.inj read
    exact (depth_canonical_le found).trans (depth_le_of_readValue inside)
  · cases read

theorem spaces_line : Spaces ['\n'] := by
  simp [Spaces, isSpace]

theorem readDocument_written {d : Json} {cs after : List Char} (written : Written d cs)
    (shallow : d.depth ≤ depthLimit) (spaces : Spaces after) :
    readDocument (cs ++ after) = some d := by
  have ends : Ends after := by
    rw [← List.append_nil after]
    exact ends_append spaces (by simp [Ends])
  have nothing : skipSpace after = [] := List.dropWhile_eq_nil_iff.mpr spaces
  rw [readDocument, written.begins.skip]
  simp only [bind, Option.bind, readValue_written written shallow ends, nothing]
  rfl

/-- What is written in lines is read back unless it nests too deep. -/
theorem parse?_pretty_iff {d : Json} (proper : d.Canonical) (exact : d.Integral) :
    parse? (d.pretty ++ "\n") = some d ↔ d.depth ≤ depthLimit := by
  refine ⟨depth_le_of_parse?, fun shallow => ?_⟩
  have read := readDocument_written (prettyChars_written d 0 exact) shallow spaces_line
  have text : (d.pretty ++ "\n").toList = prettyChars 0 d ++ ['\n'] := by simp [pretty]
  rw [parse?, read?, text, read, Option.map_some, canonical_eq d proper]

end Json
end StackSynth
