import Mathlib
import StackSynth.Toml.Parser

/-!
# Consuming — a reader of files leaves the end of its text

Every reader of configuration files takes characters from the front of a text and leaves the
others as they are.  So what is left tells how far the reader has come.

* `Toml.Consumes` — such readers;
* `Toml.consumes_readValue`, `consumes_readStatement` — values and statements are read by them;
* `Toml.skipLines_suffix`, `endOfLine?_suffix` — what is skipped around them.
-/

namespace StackSynth
namespace Toml

/-- What the reader leaves is an end of the text. -/
def Consumes {α : Type} (reader : Reader α) : Prop :=
  ∀ cs x rest, reader cs = some (x, rest) → rest <:+ cs

/-! ## Skipping -/

theorem skipBlanks_suffix (cs : List Char) : skipBlanks cs <:+ cs :=
  List.dropWhile_suffix _

theorem skipComment_suffix (cs : List Char) : skipComment cs <:+ cs := by
  unfold skipComment
  split
  · exact (List.dropWhile_suffix _).trans (List.suffix_cons _ _)
  · exact List.suffix_rfl

theorem skipped_suffix (cs : List Char) : skipComment (skipBlanks cs) <:+ cs :=
  (skipComment_suffix _).trans (skipBlanks_suffix cs)

theorem skipLines_suffix (cs : List Char) : skipLines cs <:+ cs := by
  -- It stops where no line break follows, or where one would not make the text shorter.
  fun_induction skipLines cs with
  | case1 cs rest skipped shorter ih =>
      have behind : rest <:+ cs := (List.suffix_cons _ _).trans (skipped ▸ skipped_suffix cs)
      exact ih.trans behind
  | case2 cs rest skipped stays => exact List.suffix_rfl
  | case3 cs rest skipped shorter ih =>
      have front : rest <:+ '\r' :: '\n' :: rest := ⟨['\r', '\n'], rfl⟩
      exact ih.trans (front.trans (skipped ▸ skipped_suffix cs))
  | case4 cs rest skipped stays => exact List.suffix_rfl
  | case5 cs => exact skipped_suffix cs

/-- Behind a mark that follows the blanks the end of the text goes on. -/
theorem behind_blanks {cs rest : List Char} {mark : Char} (found : skipBlanks cs = mark :: rest) :
    rest <:+ cs :=
  (List.suffix_cons _ _).trans (found ▸ skipBlanks_suffix cs)

theorem behind_lines {cs rest : List Char} {mark : Char} (found : skipLines cs = mark :: rest) :
    rest <:+ cs :=
  (List.suffix_cons _ _).trans (found ▸ skipLines_suffix cs)

theorem lineEnd?_suffix {cs rest : List Char} (ends : lineEnd? cs = some rest) : rest <:+ cs := by
  unfold lineEnd? at ends
  split at ends
  · obtain rfl := Option.some.inj ends
    exact List.suffix_cons _ _
  · obtain rfl := Option.some.inj ends
    exact ⟨['\r', '\n'], rfl⟩
  · cases ends

theorem endOfLine?_suffix {cs rest : List Char} (ends : endOfLine? cs = some rest) :
    rest <:+ cs := by
  unfold endOfLine? at ends
  split at ends
  · obtain rfl := Option.some.inj ends
    exact List.nil_suffix
  · exact (lineEnd?_suffix ends).trans (skipped_suffix cs)

theorem dropMark_suffix (cs : List Char) : dropMark cs <:+ cs := by
  unfold dropMark
  split
  · exact List.suffix_cons _ _
  · exact List.suffix_rfl

/-! ## Texts -/

/-- What has been read is put into something else, and what is left stays. -/
theorem made_of_read {α β : Type} {read : Option (α × List Char)} {make : α → β} {made : β}
    {rest : List Char}
    (done : (do let (x, after) ← read; return (make x, after)) = some (made, rest)) :
    ∃ x, read = some (x, rest) ∧ made = make x := by
  obtain ⟨⟨x, after⟩, known, done⟩ := Option.bind_eq_some_iff.mp done
  obtain ⟨rfl, rfl⟩ := Prod.mk.inj (Option.some.inj done)
  exact ⟨x, known, rfl⟩

theorem Consumes.map {α β : Type} {reader : Reader α} {make : α → β} {cs rest : List Char}
    {made : β} (consumes : Consumes reader)
    (read : ((reader cs).map fun p => (make p.1, p.2)) = some (made, rest)) : rest <:+ cs := by
  obtain ⟨⟨x, after⟩, known, same⟩ := Option.map_eq_some_iff.mp read
  obtain ⟨-, rfl⟩ := Prod.mk.inj same
  exact consumes _ _ _ known

theorem consumes_readBasic : Consumes readBasic := by
  intro cs x rest read
  fun_induction readBasic cs generalizing x with
  | case1 => cases read
  | case2 after =>
      obtain ⟨-, rfl⟩ := Prod.mk.inj (Option.some.inj read)
      exact List.suffix_cons _ _
  | case3 after ih =>
      -- An escape, which takes as many characters as its kind needs.
      obtain ⟨⟨c, used⟩, -, read⟩ := Option.bind_eq_some_iff.mp read
      obtain ⟨y, known, -⟩ := made_of_read read
      exact (ih used y known).trans ((List.drop_suffix used after).trans (List.suffix_cons _ _))
  | case4 c after _ _ _ ih =>
      obtain ⟨y, known, -⟩ := made_of_read read
      exact (ih y known).trans (List.suffix_cons _ _)
  | case5 => cases read

theorem consumes_readLiteral : Consumes readLiteral := by
  intro cs x rest read
  fun_induction readLiteral cs generalizing x with
  | case1 => cases read
  | case2 after =>
      obtain ⟨-, rfl⟩ := Prod.mk.inj (Option.some.inj read)
      exact List.suffix_cons _ _
  | case3 c after _ _ ih =>
      obtain ⟨y, known, -⟩ := made_of_read read
      exact (ih y known).trans (List.suffix_cons _ _)
  | case4 => cases read

theorem joinedLines?_suffix {cs more : List Char} (joined : joinedLines? cs = some more) :
    more <:+ cs := by
  unfold joinedLines? at joined
  split at joined
  · rename_i rest found
    obtain rfl := Option.some.inj joined
    have behind : rest <:+ cs := behind_blanks found
    exact (List.dropWhile_suffix _).trans behind
  · rename_i rest found
    obtain rfl := Option.some.inj joined
    have front : rest <:+ '\r' :: '\n' :: rest := ⟨['\r', '\n'], rfl⟩
    exact (List.dropWhile_suffix _).trans (front.trans (found ▸ skipBlanks_suffix cs))
  · cases joined

theorem consumes_readLong (quote : Char) (escapes : Bool) : Consumes (readLong quote escapes) := by
  intro cs x rest read
  fun_induction readLong quote escapes cs generalizing x with
  | case1 => cases read
  | case2 after ih =>
      obtain ⟨y, known, -⟩ := made_of_read read
      exact (ih y known).trans (List.suffix_cons _ _)
  | case3 after ih =>
      obtain ⟨y, known, -⟩ := made_of_read read
      exact (ih y known).trans ⟨['\r', '\n'], rfl⟩
  | case4 c after _ _ _ _ _ kept =>
      -- The quotes that close the text, of which up to two more belong to it.
      obtain ⟨-, rfl⟩ := Prod.mk.inj (Option.some.inj read)
      exact (List.drop_suffix _ after).trans (List.suffix_cons _ _)
  | case5 c after _ _ _ _ _ ih =>
      obtain ⟨y, known, -⟩ := made_of_read read
      exact (ih y known).trans (List.suffix_cons _ _)
  | case6 c after _ _ _ _ more joined _ _ ih =>
      -- A backslash at the end of a line.
      exact (ih x read).trans ((joinedLines?_suffix joined).trans (List.suffix_cons _ _))
  | case7 => cases read
  | case8 c after _ _ _ _ _ ih =>
      obtain ⟨⟨e, used⟩, -, read⟩ := Option.bind_eq_some_iff.mp read
      obtain ⟨y, known, -⟩ := made_of_read read
      exact (ih used y known).trans ((List.drop_suffix used after).trans (List.suffix_cons _ _))
  | case9 c after _ _ _ _ _ ih =>
      obtain ⟨y, known, -⟩ := made_of_read read
      exact (ih y known).trans (List.suffix_cons _ _)
  | case10 => cases read

theorem dropFirstLineEnd_suffix (cs : List Char) : dropFirstLineEnd cs <:+ cs := by
  unfold dropFirstLineEnd
  cases ends : lineEnd? cs with
  | none => exact List.suffix_rfl
  | some rest => exact lineEnd?_suffix ends

theorem consumes_readText : Consumes readText := by
  intro cs x rest read
  unfold readText at read
  dsimp only at read
  split at read
  · rename_i after
    exact ((consumes_readLong _ _).map read).trans
      ((dropFirstLineEnd_suffix after).trans ⟨['"', '"', '"'], rfl⟩)
  · rename_i after
    exact ((consumes_readLong _ _).map read).trans
      ((dropFirstLineEnd_suffix after).trans ⟨['\'', '\'', '\''], rfl⟩)
  · exact (consumes_readBasic.map read).trans (List.suffix_cons _ _)
  · exact (consumes_readLiteral.map read).trans (List.suffix_cons _ _)
  · cases read

/-! ## Keys -/

theorem consumes_readSimpleKey : Consumes readSimpleKey := by
  intro cs x rest read
  unfold readSimpleKey at read
  split at read
  · exact (consumes_readBasic.map read).trans (List.suffix_cons _ _)
  · exact (consumes_readLiteral.map read).trans (List.suffix_cons _ _)
  · dsimp only at read
    split at read
    · cases read
    · obtain ⟨-, rfl⟩ := Prod.mk.inj (Option.some.inj read)
      exact List.dropWhile_suffix _

/-- A dotted key is one part, or a part and a dot in front of a dotted key. -/
theorem readKeyParts_cases {limit : Nat} {cs rest : List Char} {keys : List String}
    (read : readKeyParts limit cs = some (keys, rest)) :
    ∃ key after, readSimpleKey (skipBlanks cs) = some (key, after)
      ∧ ((keys = [key] ∧ rest = skipBlanks after ∧ ∀ more, skipBlanks after ≠ '.' :: more)
        ∨ ∃ fewer more others, skipBlanks after = '.' :: more
          ∧ readKeyParts fewer more = some (others, rest) ∧ fewer < limit
          ∧ keys = key :: others) := by
  cases limit with
  | zero => cases read
  | succ limit =>
      rw [readKeyParts] at read
      obtain ⟨⟨key, after⟩, first, read⟩ := Option.bind_eq_some_iff.mp read
      refine ⟨key, after, first, ?_⟩
      dsimp only at read
      split at read
      · rename_i more dot
        obtain ⟨others, known, rfl⟩ := made_of_read read
        exact Or.inr ⟨limit, more, others, dot, known, Nat.lt_succ_self _, rfl⟩
      · rename_i other
        obtain ⟨rfl, rfl⟩ := Prod.mk.inj (Option.some.inj read)
        exact Or.inl ⟨rfl, rfl, other⟩

theorem consumes_readKeyParts (limit : Nat) : Consumes (readKeyParts limit) := by
  induction limit using Nat.strong_induction_on with
  | _ limit ih =>
      intro cs keys rest read
      obtain ⟨key, after, first, ⟨rfl, rfl, -⟩ | ⟨fewer, more, others, dot, known, less, rfl⟩⟩ :=
        readKeyParts_cases read
      · exact (skipBlanks_suffix after).trans
          ((consumes_readSimpleKey _ _ _ first).trans (skipBlanks_suffix cs))
      · have rest_after := (ih fewer less _ _ _ known).trans (behind_blanks dot)
        exact rest_after.trans
          ((consumes_readSimpleKey _ _ _ first).trans (skipBlanks_suffix cs))

theorem readKey_cases {cs rest : List Char} {above : List String} {key : String}
    (read : readKey cs = some ((above, key), rest)) :
    readKeyParts depthLimit cs = some (above ++ [key], rest) := by
  obtain ⟨⟨keys, after⟩, known, read⟩ := Option.bind_eq_some_iff.mp read
  dsimp only at read
  split at read
  · rename_i last found
    obtain ⟨same, rfl⟩ := Prod.mk.inj (Option.some.inj read)
    obtain ⟨rfl, rfl⟩ := Prod.mk.inj same
    obtain ⟨front, rfl⟩ := List.getLast?_eq_some_iff.mp found
    rwa [List.dropLast_concat]
  · cases read

theorem consumes_readKey : Consumes readKey := by
  rintro cs ⟨above, key⟩ rest read
  exact consumes_readKeyParts depthLimit _ _ _ (readKey_cases read)

/-! ## Values -/

theorem readAssignment_cases {value : Reader Toml} {cs rest : List Char} {above : List String}
    {key : String} {v : Toml} (read : readAssignment value cs = some ((above, key, v), rest)) :
    ∃ more, readKey cs = some ((above, key), '=' :: more)
      ∧ value (skipBlanks more) = some (v, rest) := by
  obtain ⟨⟨⟨above', key'⟩, after⟩, known, read⟩ := Option.bind_eq_some_iff.mp read
  dsimp only at read
  split at read
  · rename_i more
    obtain ⟨⟨w, behind⟩, found, read⟩ := Option.bind_eq_some_iff.mp read
    cases read
    exact ⟨more, known, found⟩
  · cases read

variable {item value : Reader Toml}

theorem consumes_readAssignment (consumes : Consumes value) : Consumes (readAssignment value) := by
  rintro cs ⟨above, key, v⟩ rest read
  obtain ⟨more, known, found⟩ := readAssignment_cases read
  have behind : more <:+ cs := (List.suffix_cons _ _).trans (consumes_readKey _ _ _ known)
  exact (consumes _ _ _ found).trans ((skipBlanks_suffix more).trans behind)

/-- An array is empty, or it has a first item with a comma and more items behind it. -/
theorem readItems_cases {cs rest : List Char} {xs : List Toml}
    (read : readItems item cs = some (xs, rest)) :
    (skipLines cs = ']' :: rest ∧ xs = [])
      ∨ ∃ x after, item (skipLines cs) = some (x, after)
        ∧ ((skipLines after = ']' :: rest ∧ xs = [x])
          ∨ ∃ more others, skipLines after = ',' :: more ∧ more.length < cs.length
            ∧ readItems item more = some (others, rest) ∧ xs = x :: others) := by
  rw [readItems] at read
  split at read
  · rename_i after closed
    obtain ⟨rfl, rfl⟩ := Prod.mk.inj (Option.some.inj read)
    exact Or.inl ⟨closed, rfl⟩
  · obtain ⟨⟨x, after⟩, first, read⟩ := Option.bind_eq_some_iff.mp read
    refine Or.inr ⟨x, after, first, ?_⟩
    dsimp only at read
    split at read
    · rename_i closed
      obtain ⟨rfl, rfl⟩ := Prod.mk.inj (Option.some.inj read)
      exact Or.inl ⟨closed, rfl⟩
    · rename_i more comma
      split at read
      · rename_i less
        obtain ⟨others, known, rfl⟩ := made_of_read read
        exact Or.inr ⟨more, others, comma, less, known, rfl⟩
      · cases read
    · cases read

theorem consumes_readItems (consumes : Consumes item) : Consumes (readItems item) := by
  intro cs xs rest read
  -- Behind each comma the reader begins again with less of the text.
  induction found : cs.length using Nat.strong_induction_on generalizing cs xs with
  | _ n shorter =>
      subst found
      have front := skipLines_suffix cs
      rcases readItems_cases read with ⟨closed, rfl⟩ | ⟨x, after, first, last | tail⟩
      · exact behind_lines closed
      · obtain ⟨closed, rfl⟩ := last
        exact (behind_lines closed).trans ((consumes _ _ _ first).trans front)
      · obtain ⟨more, others, comma, less, known, rfl⟩ := tail
        have rest_after := (shorter _ less _ _ known rfl).trans (behind_lines comma)
        exact rest_after.trans ((consumes _ _ _ first).trans front)

theorem readPairs_cases {cs rest : List Char} {pairs : List (List String × String × Toml)}
    (read : readPairs value cs = some (pairs, rest)) :
    ∃ pair after, readAssignment value (skipBlanks cs) = some (pair, after)
      ∧ ((skipBlanks after = '}' :: rest ∧ pairs = [pair])
        ∨ ∃ more others, skipBlanks after = ',' :: more ∧ more.length < cs.length
          ∧ readPairs value more = some (others, rest) ∧ pairs = pair :: others) := by
  rw [readPairs] at read
  obtain ⟨⟨pair, after⟩, first, read⟩ := Option.bind_eq_some_iff.mp read
  refine ⟨pair, after, first, ?_⟩
  dsimp only at read
  split at read
  · rename_i closed
    obtain ⟨rfl, rfl⟩ := Prod.mk.inj (Option.some.inj read)
    exact Or.inl ⟨closed, rfl⟩
  · rename_i more comma
    split at read
    · rename_i less
      obtain ⟨others, known, rfl⟩ := made_of_read read
      exact Or.inr ⟨more, others, comma, less, known, rfl⟩
    · cases read
  · cases read

theorem consumes_readPairs (consumes : Consumes value) : Consumes (readPairs value) := by
  intro cs pairs rest read
  induction found : cs.length using Nat.strong_induction_on generalizing cs pairs with
  | _ n shorter =>
      subst found
      obtain ⟨pair, after, first, last | tail⟩ := readPairs_cases read
      all_goals
        have front := (consumes_readAssignment consumes _ _ _ first).trans (skipBlanks_suffix cs)
      · obtain ⟨closed, rfl⟩ := last
        exact (behind_blanks closed).trans front
      · obtain ⟨more, others, comma, less, known, rfl⟩ := tail
        exact (shorter _ less _ _ known rfl).trans ((behind_blanks comma).trans front)

/-- An inline table is empty, or it is made from its assignments. -/
theorem readInlineTable_cases {cs rest : List Char} {v : Toml}
    (read : readInlineTable value cs = some (v, rest)) :
    (skipBlanks cs = '}' :: rest ∧ v = .table [])
      ∨ ∃ pairs, readPairs value (skipBlanks cs) = some (pairs, rest)
        ∧ inlineTable? pairs = some v := by
  unfold readInlineTable at read
  split at read
  · rename_i closed
    obtain ⟨rfl, rfl⟩ := Prod.mk.inj (Option.some.inj read)
    exact Or.inl ⟨closed, rfl⟩
  · obtain ⟨⟨pairs, after⟩, known, read⟩ := Option.bind_eq_some_iff.mp read
    obtain ⟨table, made, read⟩ := Option.bind_eq_some_iff.mp read
    obtain ⟨rfl, rfl⟩ := Prod.mk.inj (Option.some.inj read)
    exact Or.inr ⟨pairs, known, made⟩

theorem consumes_readInlineTable (consumes : Consumes value) :
    Consumes (readInlineTable value) := by
  intro cs v rest read
  rcases readInlineTable_cases read with ⟨closed, -⟩ | ⟨pairs, known, -⟩
  · exact behind_blanks closed
  · exact (consumes_readPairs consumes _ _ _ known).trans (skipBlanks_suffix cs)

theorem readWord_suffix (cs : List Char) : (readWord cs).2 <:+ cs :=
  List.dropWhile_suffix _

/-- A bare value is a word, perhaps with a space in it. -/
theorem readBare_cases {cs rest : List Char} {v : Toml} (read : readBare cs = some (v, rest)) :
    ∃ word, ofWord? word = some v ∧ rest <:+ cs := by
  unfold readBare at read
  dsimp only at read
  split at read
  · -- Between a date and a time there may be a space.
    rename_i more _ space
    have behind : more <:+ cs := (List.suffix_cons _ _).trans (space ▸ readWord_suffix cs)
    split at read
    · obtain ⟨w, known, same⟩ := Option.map_eq_some_iff.mp read
      obtain ⟨rfl, rfl⟩ := Prod.mk.inj same
      exact ⟨_, known, (readWord_suffix more).trans behind⟩
    · obtain ⟨w, known, same⟩ := Option.map_eq_some_iff.mp read
      obtain ⟨rfl, rfl⟩ := Prod.mk.inj same
      exact ⟨_, known, readWord_suffix cs⟩
  · obtain ⟨w, known, same⟩ := Option.map_eq_some_iff.mp read
    obtain ⟨rfl, rfl⟩ := Prod.mk.inj same
    exact ⟨_, known, readWord_suffix cs⟩

/-- A value is a text, an array, an inline table or a bare value. -/
theorem readValue_cases {depth : Nat} {cs rest : List Char} {v : Toml}
    (read : readValue depth cs = some (v, rest)) :
    (∃ text, readText cs = some (text, rest) ∧ v = .string text)
      ∨ (∃ below inner xs, depth = below + 1 ∧ cs = '[' :: inner
        ∧ readItems (readValue below) inner = some (xs, rest) ∧ v = .array xs)
      ∨ (∃ below inner, depth = below + 1 ∧ cs = '{' :: inner
        ∧ readInlineTable (readValue below) inner = some (v, rest))
      ∨ readBare cs = some (v, rest) := by
  unfold readValue at read
  split at read
  · obtain ⟨⟨text, after⟩, known, same⟩ := Option.map_eq_some_iff.mp read
    obtain ⟨rfl, rfl⟩ := Prod.mk.inj same
    exact Or.inl ⟨text, known, rfl⟩
  · obtain ⟨⟨text, after⟩, known, same⟩ := Option.map_eq_some_iff.mp read
    obtain ⟨rfl, rfl⟩ := Prod.mk.inj same
    exact Or.inl ⟨text, known, rfl⟩
  · obtain ⟨⟨xs, after⟩, known, same⟩ := Option.map_eq_some_iff.mp read
    obtain ⟨rfl, rfl⟩ := Prod.mk.inj same
    exact Or.inr (Or.inl ⟨_, _, xs, rfl, rfl, known, rfl⟩)
  · exact Or.inr (Or.inr (Or.inl ⟨_, _, rfl, rfl, read⟩))
  · exact Or.inr (Or.inr (Or.inr read))

theorem consumes_readValue (depth : Nat) : Consumes (readValue depth) := by
  -- Arrays and inline tables read what is in them with less depth.
  induction depth using Nat.strong_induction_on with
  | _ depth ih =>
      intro cs v rest read
      rcases readValue_cases read with ⟨text, known, -⟩ | array | table | bare
      · exact consumes_readText _ _ _ known
      · obtain ⟨below, inner, xs, rfl, rfl, known, -⟩ := array
        have items := consumes_readItems (ih below (Nat.lt_succ_self _))
        exact (items _ _ _ known).trans (List.suffix_cons _ _)
      · obtain ⟨below, inner, rfl, rfl, known⟩ := table
        have table := consumes_readInlineTable (ih below (Nat.lt_succ_self _))
        exact (table _ _ _ known).trans (List.suffix_cons _ _)
      · obtain ⟨word, -, behind⟩ := readBare_cases bare
        exact behind

/-! ## Statements -/

/-- A header in two brackets begins a row, and one in a single bracket a table. -/
theorem readHeader_cases {cs rest : List Char} {st : Statement}
    (read : readHeader cs = some (st, rest)) :
    (∃ inner above key, cs = '[' :: inner ∧ readKey inner = some ((above, key), ']' :: ']' :: rest)
        ∧ st = .row above key)
      ∨ ∃ above key, readKey cs = some ((above, key), ']' :: rest) ∧ st = .header above key := by
  unfold readHeader at read
  split at read
  · rename_i inner
    obtain ⟨⟨⟨above, key⟩, after⟩, known, read⟩ := Option.bind_eq_some_iff.mp read
    dsimp only at read
    split at read
    · obtain ⟨rfl, rfl⟩ := Prod.mk.inj (Option.some.inj read)
      exact Or.inl ⟨inner, above, key, rfl, known, rfl⟩
    · cases read
  · obtain ⟨⟨⟨above, key⟩, after⟩, known, read⟩ := Option.bind_eq_some_iff.mp read
    dsimp only at read
    split at read
    · obtain ⟨rfl, rfl⟩ := Prod.mk.inj (Option.some.inj read)
      exact Or.inr ⟨above, key, known, rfl⟩
    · cases read

theorem consumes_readHeader : Consumes readHeader := by
  intro cs st rest read
  rcases readHeader_cases read with ⟨inner, above, key, rfl, known, -⟩ | ⟨above, key, known, -⟩
  · have behind : rest <:+ inner :=
      (List.suffix_append [']', ']'] rest).trans (consumes_readKey _ _ _ known)
    exact behind.trans (List.suffix_cons _ _)
  · exact (List.suffix_cons _ _).trans (consumes_readKey _ _ _ known)

/-- A statement is a header after its bracket, or an assignment. -/
theorem readStatement_cases {cs rest : List Char} {st : Statement}
    (read : readStatement cs = some (st, rest)) :
    (∃ inner, cs = '[' :: inner ∧ readHeader inner = some (st, rest))
      ∨ ∃ above key v, readAssignment (readValue depthLimit) cs = some ((above, key, v), rest)
        ∧ st = .assign above key v := by
  unfold readStatement at read
  split at read
  · exact Or.inl ⟨_, rfl, read⟩
  · obtain ⟨⟨⟨above, key, v⟩, after⟩, known, read⟩ := Option.bind_eq_some_iff.mp read
    obtain ⟨rfl, rfl⟩ := Prod.mk.inj (Option.some.inj read)
    exact Or.inr ⟨above, key, v, known, rfl⟩

theorem consumes_readStatement : Consumes readStatement := by
  intro cs st rest read
  rcases readStatement_cases read with ⟨inner, rfl, known⟩ | ⟨above, key, v, known, -⟩
  · exact (consumes_readHeader _ _ _ known).trans (List.suffix_cons _ _)
  · exact consumes_readAssignment (consumes_readValue depthLimit) _ _ _ known

/-- A file is over, or it has a first statement and more of them on the lines behind it. -/
theorem readStatements_cases {cs : List Char} {statements : List Statement}
    (read : readStatements cs = some statements) :
    (skipLines cs = [] ∧ statements = [])
      ∨ ∃ st rest more others, readStatement (skipLines cs) = some (st, rest)
        ∧ endOfLine? rest = some more ∧ more.length < cs.length
        ∧ readStatements more = some others ∧ statements = st :: others := by
  rw [readStatements] at read
  split at read
  · rename_i ended
    cases read
    exact Or.inl ⟨ended, rfl⟩
  · obtain ⟨⟨st, rest⟩, first, read⟩ := Option.bind_eq_some_iff.mp read
    obtain ⟨more, ends, read⟩ := Option.bind_eq_some_iff.mp read
    split at read
    · rename_i less
      obtain ⟨others, known, done⟩ := Option.bind_eq_some_iff.mp read
      cases done
      exact Or.inr ⟨st, rest, more, others, first, ends, less, known, rfl⟩
    · cases read

end Toml
end StackSynth
