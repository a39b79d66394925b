import StackSynth.Proofs.Consuming
import StackSynth.Proofs.Showing

/-!
# Locating — where a key stands in its file

A place in a text is given by what follows it.  A key stands where a header names it, or an
assignment names it among the keys on its left or in an inline table on its right.

* `PartAt`, `ItemAt`, `PairAt` — the keys of a dotted key, the items of an array and the
  assignments of an inline table, each at its place;
* `KeyIn`, `Document.SetAt`, `KeyAt` — the keys in a value, those that a statement sets, and all
  keys of a file;
* `exists_keyIn`, `exists_keyAt` — every key to which a way leads stands somewhere;
* `KeyAt.stands` — at that place the text goes on with the key.
-/

namespace StackSynth
namespace Toml

/-! ## Places -/

/-- The last of the keys stands at the place, the others in front of it with dots between. -/
inductive PartAt : List Char → List String → List Char → Prop
  | here {cs rest : List Char} {key : String}
      (read : readSimpleKey (skipBlanks cs) = some (key, rest)) : PartAt cs [key] (skipBlanks cs)
  | next {cs after more spot : List Char} {key : String} {keys : List String}
      (read : readSimpleKey (skipBlanks cs) = some (key, after))
      (dot : skipBlanks after = '.' :: more) (later : PartAt more keys spot) :
      PartAt cs (key :: keys) spot

/-- An item of an array begins at the place, with its number counted from nought. -/
inductive ItemAt (item : Reader Toml) : List Char → Nat → List Char → Prop
  | here {cs : List Char} : ItemAt item cs 0 (skipLines cs)
  | next {cs after more start : List Char} {x : Toml} {i : Nat}
      (read : item (skipLines cs) = some (x, after)) (comma : skipLines after = ',' :: more)
      (later : ItemAt item more i start) : ItemAt item cs (i + 1) start

/-- An assignment of an inline table begins at the place. -/
inductive PairAt (value : Reader Toml) : List Char → List Char → Prop
  | here {cs : List Char} : PairAt value cs (skipBlanks cs)
  | next {cs after more start : List Char} {pair : List String × String × Toml}
      (read : readAssignment value (skipBlanks cs) = some (pair, after))
      (comma : skipBlanks after = ',' :: more) (later : PairAt value more start) :
      PairAt value cs start

/-- The key to which the keys and indices lead is set at the place, inside of a value. -/
inductive KeyIn : Nat → List Char → List String → List Char → Prop
  | item {depth i : Nat} {inner start spot : List Char} {keys : List String}
      (begins : ItemAt (readValue depth) inner i start) (within : KeyIn depth start keys spot) :
      KeyIn (depth + 1) ('[' :: inner) (toString i :: keys) spot
  | part {depth : Nat} {inner start spot : List Char} {keys : List String}
      (begins : PairAt (readValue depth) (skipBlanks inner) start)
      (stands : PartAt start keys spot) : KeyIn (depth + 1) ('{' :: inner) keys spot
  | value {depth : Nat} {inner start more spot : List Char} {above keys : List String}
      {key : String} (begins : PairAt (readValue depth) (skipBlanks inner) start)
      (assigns : readKey start = some ((above, key), '=' :: more))
      (within : KeyIn depth (skipBlanks more) keys spot) :
      KeyIn (depth + 1) ('{' :: inner) (above ++ key :: keys) spot

/-- The key is set at the place by a statement with the given beginning.  The document is the one
with the statement. -/
inductive Document.SetAt (doc : Document) : List Char → Statement → List String → List Char → Prop
  | header {inner spot : List Char} {above front : List String} {key last : String}
      (stands : PartAt inner (front ++ [last]) spot) :
      SetAt doc ('[' :: inner) (.header above key) (doc.root.located front ++ [last]) spot
  | row {inner spot : List Char} {above front : List String} {key last : String}
      (stands : PartAt inner (front ++ [last]) spot) :
      SetAt doc ('[' :: '[' :: inner) (.row above key) (doc.root.located front ++ [last]) spot
  | part {start spot : List Char} {above front : List String} {key last : String} {value : Toml}
      (stands : PartAt start (front ++ [last]) spot) :
      SetAt doc start (.assign above key value)
        (doc.place ++ (doc.filling.located front ++ [last])) spot
  | value {start more spot : List Char} {above own : List String} {key : String} {value : Toml}
      (assigns : readKey start = some ((above, key), '=' :: more))
      (within : KeyIn depthLimit (skipBlanks more) own spot) :
      SetAt doc start (.assign above key value)
        (doc.place ++ (doc.filling.located above ++ key :: own)) spot

/-- The key is set at the place by one of the statements of a text, which go on with the
document. -/
inductive KeyAt : Document → List Char → List String → List Char → Prop
  | here {doc next : Document} {cs rest spot : List Char} {st : Statement} {keys : List String}
      (read : readStatement (skipLines cs) = some (st, rest)) (added : doc.add st = some next)
      (sets : next.SetAt (skipLines cs) st keys spot) : KeyAt doc cs keys spot
  | later {doc next : Document} {cs rest more spot : List Char} {st : Statement}
      {keys : List String} (read : readStatement (skipLines cs) = some (st, rest))
      (added : doc.add st = some next) (ends : endOfLine? rest = some more)
      (there : KeyAt next more keys spot) : KeyAt doc cs keys spot

/-! ## What stands there -/

/-- The place is in the text, and the text goes on there with the last of the keys. -/
def Stands (cs : List Char) (keys : List String) (spot : List Char) : Prop :=
  spot <:+ cs ∧ ∃ front key rest, keys = front ++ [key] ∧ readSimpleKey spot = some (key, rest)

variable {cs inner spot : List Char} {keys : List String} {item value : Reader Toml}

theorem Stands.after (stands : Stands inner keys spot) (behind : inner <:+ cs) :
    Stands cs keys spot :=
  ⟨stands.1.trans behind, stands.2⟩

theorem Stands.below (stands : Stands cs keys spot) (above : List String) :
    Stands cs (above ++ keys) spot := by
  obtain ⟨behind, front, key, rest, rfl, read⟩ := stands
  exact ⟨behind, above ++ front, key, rest, (List.append_assoc _ _ _).symm, read⟩

/-- What leads to the key does not matter. -/
theorem Stands.under {front : List String} {last : String}
    (stands : Stands cs (front ++ [last]) spot) (above : List String) :
    Stands cs (above ++ [last]) spot := by
  obtain ⟨behind, front', key, rest, same, read⟩ := stands
  obtain rfl := List.singleton_inj.mp (List.append_inj' same rfl).2
  exact ⟨behind, above, _, rest, rfl, read⟩

theorem PartAt.stands (part : PartAt cs keys spot) : Stands cs keys spot := by
  induction part with
  | here read => exact ⟨skipBlanks_suffix _, [], _, _, rfl, read⟩
  | @next cs after more spot key keys read dot later ih =>
      have whole := (consumes_readSimpleKey _ _ _ read).trans (skipBlanks_suffix cs)
      exact (ih.after ((behind_blanks dot).trans whole)).below [key]

theorem ItemAt.suffix {start : List Char} {i : Nat} (consumes : Consumes item)
    (begins : ItemAt item cs i start) : start <:+ cs := by
  induction begins with
  | here => exact skipLines_suffix _
  | @next cs after more start x i read comma later ih =>
      have whole := (consumes _ _ _ read).trans (skipLines_suffix cs)
      exact ih.trans ((behind_lines comma).trans whole)

theorem PairAt.suffix {start : List Char} (consumes : Consumes value)
    (begins : PairAt value cs start) : start <:+ cs := by
  induction begins with
  | here => exact skipBlanks_suffix _
  | @next cs after more start pair read comma later ih =>
      have whole := (consumes_readAssignment consumes _ _ _ read).trans (skipBlanks_suffix cs)
      exact ih.trans ((behind_blanks comma).trans whole)

/-- What follows the equals sign of an assignment. -/
theorem assigned_suffix {start more : List Char} {above : List String} {key : String}
    (assigns : readKey start = some ((above, key), '=' :: more)) : skipBlanks more <:+ start :=
  (skipBlanks_suffix more).trans
    ((List.suffix_cons _ _).trans (consumes_readKey _ _ _ assigns))

theorem KeyIn.stands {depth : Nat} (within : KeyIn depth cs keys spot) : Stands cs keys spot := by
  induction within with
  | @item depth i inner start spot keys begins within ih =>
      have behind := begins.suffix (consumes_readValue depth)
      exact (ih.after (behind.trans (List.suffix_cons _ _))).below [toString i]
  | @part depth inner start spot keys begins stands =>
      have behind := (begins.suffix (consumes_readValue depth)).trans (skipBlanks_suffix inner)
      exact stands.stands.after (behind.trans (List.suffix_cons _ _))
  | @value depth inner start more spot above keys key begins assigns within ih =>
      have behind := (begins.suffix (consumes_readValue depth)).trans (skipBlanks_suffix inner)
      have whole := (ih.after (assigned_suffix assigns)).after behind
      exact ((whole.after (List.suffix_cons _ _)).below [key]).below above

theorem Document.SetAt.stands {doc : Document} {st : Statement} (sets : doc.SetAt cs st keys spot) :
    Stands cs keys spot := by
  cases sets with
  | header part => exact (part.stands.after (List.suffix_cons _ _)).under _
  | row part => exact (part.stands.after ⟨['[', '['], rfl⟩).under _
  | part part => exact (part.stands.under _).below _
  | @value start more spot above own key v assigns within =>
      have stands := within.stands.after (assigned_suffix assigns)
      exact ((stands.below [key]).below _).below _

/-- A key of a file stands where it is set. -/
theorem KeyAt.stands {doc : Document} (there : KeyAt doc cs keys spot) : Stands cs keys spot := by
  induction there with
  | here read added sets => exact sets.stands.after (skipLines_suffix _)
  | @later doc next cs rest more spot st keys read added ends there ih =>
      have behind := (endOfLine?_suffix ends).trans (consumes_readStatement _ _ _ read)
      exact ih.after (behind.trans (skipLines_suffix cs))

/-! ## Every key has its place -/

theorem exists_partAt {limit : Nat} {cs rest : List Char} {parts front : List String}
    {last : String} (read : readKeyParts limit cs = some (parts, rest))
    (part : front ++ [last] <+: parts) : ∃ spot, PartAt cs (front ++ [last]) spot := by
  -- The limit is how many dots may follow, so that it falls at each of them.
  induction limit using Nat.strong_induction_on generalizing cs parts front with
  | _ limit ih =>
      obtain ⟨key, after, first, ⟨rfl, -, -⟩ | ⟨fewer, more, others, dot, known, less, rfl⟩⟩ :=
        readKeyParts_cases read
      · cases front with
        | nil =>
            obtain ⟨rfl, -⟩ := List.cons_prefix_cons.mp part
            exact ⟨_, .here first⟩
        | cons key' front =>
            have impossible := (List.cons_prefix_cons.mp part).2
            exact absurd (List.prefix_nil.mp impossible) (List.concat_ne_nil _ _)
      · cases front with
        | nil =>
            obtain ⟨rfl, -⟩ := List.cons_prefix_cons.mp part
            exact ⟨_, .here first⟩
        | cons key' front =>
            obtain ⟨rfl, inner⟩ := List.cons_prefix_cons.mp part
            obtain ⟨spot, stands⟩ := ih fewer less known inner
            exact ⟨spot, .next first dot stands⟩

theorem exists_partAt_key {cs rest : List Char} {above front : List String} {key last : String}
    (read : readKey cs = some ((above, key), rest)) (part : front ++ [last] <+: above ++ [key]) :
    ∃ spot, PartAt cs (front ++ [last]) spot :=
  exists_partAt (readKey_cases read) part

theorem exists_itemAt {cs rest : List Char} {xs : List Toml} {i : Nat} {x : Toml}
    (read : readItems item cs = some (xs, rest)) (found : xs[i]? = some x) :
    ∃ start after, ItemAt item cs i start ∧ item start = some (x, after) := by
  induction size : cs.length using Nat.strong_induction_on generalizing cs xs i with
  | _ n shorter =>
      subst size
      rcases readItems_cases read with ⟨-, rfl⟩ | ⟨y, after, first, ⟨-, rfl⟩ | tail⟩
      · cases found
      · cases i with
        | zero =>
            cases found
            exact ⟨_, _, .here, first⟩
        | succ i => cases found
      · obtain ⟨more, others, comma, less, known, rfl⟩ := tail
        cases i with
        | zero =>
            cases found
            exact ⟨_, _, .here, first⟩
        | succ i =>
            obtain ⟨start, after', begins, reads⟩ := shorter _ less known found rfl
            exact ⟨start, after', .next first comma begins, reads⟩

theorem exists_pairAt {cs rest : List Char} {pairs : List (List String × String × Toml)}
    {pair : List String × String × Toml} (read : readPairs value cs = some (pairs, rest))
    (among : pair ∈ pairs) :
    ∃ start after, PairAt value cs start ∧ readAssignment value start = some (pair, after) := by
  induction size : cs.length using Nat.strong_induction_on generalizing cs pairs with
  | _ n shorter =>
      subst size
      obtain ⟨pair', after, first, ⟨-, rfl⟩ | tail⟩ := readPairs_cases read
      · obtain rfl := List.mem_singleton.mp among
        exact ⟨_, _, .here, first⟩
      · obtain ⟨more, others, comma, less, known, rfl⟩ := tail
        rcases List.mem_cons.mp among with rfl | later
        · exact ⟨_, _, .here, first⟩
        · obtain ⟨start, after', begins, reads⟩ := shorter _ less known later rfl
          exact ⟨start, after', .next first comma begins, reads⟩

/-- Words are no tables and no arrays. -/
theorem not_leads_ofWord? {word : List Char} {v : Toml} {keys : List String}
    (made : ofWord? word = some v) : ¬v.Leads keys := by
  intro leads
  unfold ofWord? at made
  rcases leads.nested with ⟨items, rfl⟩ | ⟨items, rfl⟩ | ⟨entries, rfl⟩
  all_goals
    repeat' split at made
    all_goals simp at made

/-- Every key in a value stands somewhere in it. -/
theorem exists_keyIn {depth : Nat} {cs rest : List Char} {v : Toml} {keys : List String}
    (read : readValue depth cs = some (v, rest)) (leads : v.Leads keys) :
    ∃ spot, KeyIn depth cs keys spot := by
  induction depth using Nat.strong_induction_on generalizing cs rest v keys with
  | _ depth ih =>
      rcases readValue_cases read with ⟨text, -, rfl⟩ | array | table | bare
      · -- A text has no keys.
        obtain ⟨_, impossible⟩ | ⟨_, impossible⟩ | ⟨_, impossible⟩ := leads.nested
        all_goals cases impossible
      · obtain ⟨below, inner, xs, rfl, rfl, known, rfl⟩ := array
        obtain ⟨i, x, own, found, rfl, into⟩ := (leads_sequence_iff rfl).mp leads
        obtain ⟨start, after, begins, reads⟩ := exists_itemAt known found
        obtain ⟨spot, within⟩ := ih below (Nat.lt_succ_self _) reads into
        exact ⟨spot, .item begins within⟩
      · obtain ⟨below, inner, rfl, rfl, known⟩ := table
        rcases readInlineTable_cases known with ⟨-, rfl⟩ | ⟨pairs, known, made⟩
        · obtain ⟨_, _, _, among, -⟩ := leads_table_iff.mp leads
          cases among
        · obtain ⟨pair, among, sets⟩ := leads_inlineTable? made leads
          obtain ⟨start, after, begins, reads⟩ := exists_pairAt known among
          obtain ⟨more, assigns, reads⟩ := readAssignment_cases reads
          -- The key is one on the left of the assignment, or it is in the value on the right.
          rcases sets with ⟨front, last, part, rfl⟩ | ⟨own, into, rfl⟩
          · obtain ⟨spot, stands⟩ := exists_partAt_key assigns part
            exact ⟨spot, .part begins stands⟩
          · obtain ⟨spot, within⟩ := ih below (Nat.lt_succ_self _) reads into
            exact ⟨spot, .value begins assigns within⟩
      · obtain ⟨word, made, -⟩ := readBare_cases bare
        exact absurd leads (not_leads_ofWord? made)

/-- A statement sets its keys where it stands. -/
theorem Document.exists_setAt {doc : Document} {start rest : List Char} {st : Statement}
    {keys : List String} (read : readStatement start = some (st, rest)) (sets : doc.Sets st keys) :
    ∃ spot, doc.SetAt start st keys spot := by
  rcases readStatement_cases read with ⟨inner, rfl, header⟩ | ⟨above, key, v, reads, rfl⟩
  · rcases readHeader_cases header with
      ⟨inner', above, key, rfl, known, rfl⟩ | ⟨above, key, known, rfl⟩
    · cases sets with
      | row part =>
          obtain ⟨spot, stands⟩ := exists_partAt_key known part
          exact ⟨spot, .row stands⟩
    · cases sets with
      | header part =>
          obtain ⟨spot, stands⟩ := exists_partAt_key known part
          exact ⟨spot, .header stands⟩
  · obtain ⟨more, assigns, reads⟩ := readAssignment_cases reads
    cases sets with
    | part part =>
        obtain ⟨spot, stands⟩ := exists_partAt_key assigns part
        exact ⟨spot, .part stands⟩
    | value leads =>
        obtain ⟨spot, within⟩ := exists_keyIn reads leads
        exact ⟨spot, .value assigns within⟩

/-- Every key of a document that has been completed was covered before, or it stands in the rest
of the text. -/
theorem exists_keyAt_of_statements {doc final : Document} {cs : List Char}
    {statements : List Statement} {P : List String → Prop} {closed : Entries} {keys : List String}
    (covered : doc.Covered P) (read : readStatements cs = some statements)
    (run : statements.foldlM Document.add doc = some final) (closing : final.close = some closed)
    (leads : closed.Leads keys) : P keys ∨ ∃ spot, KeyAt doc cs keys spot := by
  induction statements generalizing doc cs P with
  | nil =>
      cases run
      exact Or.inl (covered.close closing leads)
  | cons st others ih =>
      rcases readStatements_cases read with ⟨-, impossible⟩ | ⟨st', rest, more, others', found⟩
      · cases impossible
      obtain ⟨reads, ends, -, known, same⟩ := found
      obtain ⟨rfl, rfl⟩ := List.cons.inj same
      rw [List.foldlM_cons] at run
      obtain ⟨next, added, run⟩ := Option.bind_eq_some_iff.mp run
      -- From here on the keys of this statement count as covered.
      have kept : doc.Covered fun keys => P keys ∨ ∃ spot, next.SetAt (skipLines cs) st keys spot :=
        covered.mono fun _ => Or.inl
      have more_covered := kept.add added fun keys sets =>
        Or.inr (Document.exists_setAt reads sets)
      rcases ih more_covered known run with (old | ⟨spot, sets⟩) | ⟨spot, there⟩
      · exact Or.inl old
      · exact Or.inr ⟨spot, .here reads added sets⟩
      · exact Or.inr ⟨spot, .later reads added ends there⟩

/-- A file is read as its statements, which are added to a document that is closed in the end. -/
theorem parse?_cases {content : String} {d : Toml} (parsed : parse? content = some d) :
    ∃ statements final closed, readStatements (dropMark content.toList) = some statements
      ∧ statements.foldlM Document.add .start = some final ∧ final.close = some closed
      ∧ d = .table (entriesToml closed) := by
  obtain ⟨statements, read, done⟩ := Option.bind_eq_some_iff.mp parsed
  obtain ⟨final, run, done⟩ := Option.bind_eq_some_iff.mp done
  obtain ⟨closed, closing, done⟩ := Option.bind_eq_some_iff.mp done
  cases done
  exact ⟨statements, final, closed, read, run, closing, rfl⟩

/-- Every key of a file stands somewhere in it. -/
theorem exists_keyAt {content : String} {d : Toml} {keys : List String}
    (parsed : parse? content = some d) (leads : d.Leads keys) :
    ∃ spot, KeyAt .start (dropMark content.toList) keys spot := by
  obtain ⟨statements, final, closed, read, run, closing, rfl⟩ := parse?_cases parsed
  have covered := Document.covered_start fun _ => False
  rcases exists_keyAt_of_statements covered read run closing leads with impossible | stands
  · exact absurd impossible id
  · exact stands

/-! ## What stands at a place is a key -/

theorem PartAt.part {cs rest spot : List Char} {keys parts : List String} {limit : Nat}
    (stands : PartAt cs keys spot) (read : readKeyParts limit cs = some (parts, rest)) :
    keys <+: parts := by
  induction stands generalizing limit parts with
  | here first =>
      obtain ⟨key, after, first', tail⟩ := readKeyParts_cases read
      cases first.symm.trans first'
      rcases tail with ⟨rfl, -⟩ | ⟨fewer, more, others, -, -, -, rfl⟩
      · exact List.prefix_rfl
      · exact ⟨others, rfl⟩
  | next first dot later ih =>
      obtain ⟨key, after, first', tail⟩ := readKeyParts_cases read
      cases first.symm.trans first'
      rcases tail with ⟨-, -, other⟩ | ⟨fewer, more, others, dot', known, -, rfl⟩
      · exact absurd dot (other _)
      · cases dot.symm.trans dot'
        exact List.cons_prefix_cons.mpr ⟨rfl, ih known⟩

theorem PartAt.part_key {cs rest spot : List Char} {keys above : List String} {key : String}
    (stands : PartAt cs keys spot) (read : readKey cs = some ((above, key), rest)) :
    keys <+: above ++ [key] :=
  stands.part (readKey_cases read)

theorem not_partAt_brace {rest spot : List Char} {keys : List String} :
    ¬PartAt ('}' :: rest) keys spot := by
  intro stands
  cases stands with
  | here first => cases first
  | next first => cases first

/-- What begins at the place of an item is that item, or the end of the array. -/
theorem ItemAt.reads {cs rest start : List Char} {xs : List Toml} {i : Nat}
    (begins : ItemAt item cs i start) (closing : ∀ after, item (']' :: after) = none)
    (read : readItems item cs = some (xs, rest)) :
    (∃ after, start = ']' :: after)
      ∨ ∃ x after, xs[i]? = some x ∧ item start = some (x, after) := by
  induction begins generalizing xs with
  | here =>
      rcases readItems_cases read with ⟨closed, -⟩ | ⟨x, after, first, ⟨-, rfl⟩ | tail⟩
      · exact Or.inl ⟨rest, closed⟩
      · exact Or.inr ⟨x, after, rfl, first⟩
      · obtain ⟨more, others, -, -, -, rfl⟩ := tail
        exact Or.inr ⟨x, after, rfl, first⟩
  | next first comma later ih =>
      rcases readItems_cases read with ⟨closed, -⟩ | ⟨x, after, first', ⟨closed, -⟩ | tail⟩
      · -- An item has been read here, so that the array does not end here.
        rw [closed, closing] at first
        cases first
      · cases first.symm.trans first'
        cases comma.symm.trans closed
      · obtain ⟨more, others, comma', -, known, rfl⟩ := tail
        cases first.symm.trans first'
        cases comma.symm.trans comma'
        exact ih known

theorem PairAt.reads {cs rest start : List Char} {pairs : List (List String × String × Toml)}
    (begins : PairAt value cs start) (read : readPairs value cs = some (pairs, rest)) :
    ∃ pair ∈ pairs, ∃ after, readAssignment value start = some (pair, after) := by
  induction begins generalizing pairs with
  | here =>
      obtain ⟨pair, after, first, ⟨-, rfl⟩ | ⟨more, others, -, -, -, rfl⟩⟩ := readPairs_cases read
      · exact ⟨pair, List.mem_cons_self, after, first⟩
      · exact ⟨pair, List.mem_cons_self, after, first⟩
  | next first comma later ih =>
      obtain ⟨pair, after, first', ⟨closed, -⟩ | tail⟩ := readPairs_cases read
      · cases first.symm.trans first'
        cases comma.symm.trans closed
      · obtain ⟨more, others, comma', -, known, rfl⟩ := tail
        cases first.symm.trans first'
        cases comma.symm.trans comma'
        obtain ⟨other, among, reads⟩ := ih known
        exact ⟨other, List.mem_cons_of_mem _ among, reads⟩

theorem readValue_closing (depth : Nat) (rest : List Char) :
    readValue depth (']' :: rest) = none := by
  cases depth <;> rfl

/-- An inline table that is closed at once has no assignments. -/
theorem PairAt.of_closed {rest start : List Char} (begins : PairAt value ('}' :: rest) start) :
    start = '}' :: rest := by
  cases begins with
  | here => rfl
  | @next _ after more _ pair first =>
      obtain ⟨above, key, v⟩ := pair
      obtain ⟨more, known, -⟩ := readAssignment_cases first
      cases known

/-- What stands in a value is a key of it. -/
theorem KeyIn.leads {depth : Nat} {cs rest spot : List Char} {keys : List String} {v : Toml}
    (within : KeyIn depth cs keys spot) (read : readValue depth cs = some (v, rest)) :
    v.Leads keys := by
  induction within generalizing v rest with
  | @item depth i inner start spot keys begins within ih =>
      rw [readValue] at read
      obtain ⟨⟨xs, after⟩, known, same⟩ := Option.map_eq_some_iff.mp read
      cases same
      rcases begins.reads (readValue_closing depth) known with
        ⟨after, rfl⟩ | ⟨x, after, found, reads⟩
      · -- No key stands in a bracket that closes.
        cases within
      · exact (leads_sequence_iff rfl).mpr ⟨i, x, keys, found, rfl, ih reads⟩
  | @part depth inner start spot keys begins stands =>
      rw [readValue] at read
      rcases readInlineTable_cases read with ⟨closed, rfl⟩ | ⟨pairs, known, made⟩
      · rw [closed] at begins
        obtain rfl := begins.of_closed
        exact absurd stands not_partAt_brace
      · obtain ⟨pair, among, after, reads⟩ := begins.reads known
        obtain ⟨more, assigns, -⟩ := readAssignment_cases reads
        obtain ⟨-, front, last, behind, rfl, -⟩ := stands.stands
        exact PairSets.leads (Or.inl ⟨front, last, stands.part_key assigns, rfl⟩) among made
  | @value depth inner start more spot above keys key begins assigns within ih =>
      rw [readValue] at read
      rcases readInlineTable_cases read with ⟨closed, rfl⟩ | ⟨pairs, known, made⟩
      · rw [closed] at begins
        obtain rfl := begins.of_closed
        cases assigns
      · obtain ⟨pair, among, after, reads⟩ := begins.reads known
        obtain ⟨more', assigns', reads⟩ := readAssignment_cases reads
        cases assigns.symm.trans assigns'
        exact PairSets.leads (Or.inr ⟨keys, ih reads, rfl⟩) among made

theorem not_readHeader_assign {inner rest : List Char} {above : List String} {key : String}
    {v : Toml} : readHeader inner ≠ some (.assign above key v, rest) := by
  intro header
  rcases readHeader_cases header with ⟨_, _, _, _, _, impossible⟩ | ⟨_, _, _, impossible⟩
  · cases impossible
  · cases impossible

/-- What stands in a statement is a key that it sets. -/
theorem Document.SetAt.sets {doc : Document} {start rest spot : List Char} {st : Statement}
    {keys : List String} (there : doc.SetAt start st keys spot)
    (read : readStatement start = some (st, rest)) : doc.Sets st keys := by
  -- A place belongs to one kind of statement; the readings of the other kinds are impossible.
  cases there with
  | header stands =>
      rcases readStatement_cases read with ⟨inner, same, header⟩ | ⟨_, _, _, _, impossible⟩
      · cases same
        rcases readHeader_cases header with ⟨_, _, _, _, _, impossible⟩ | ⟨above, key, known, same⟩
        · cases impossible
        · cases same
          exact .header (stands.part_key known)
      · cases impossible
  | row stands =>
      rcases readStatement_cases read with ⟨inner, same, header⟩ | ⟨_, _, _, _, impossible⟩
      · cases same
        rcases readHeader_cases header with
          ⟨_, above, key, same, known, row⟩ | ⟨_, _, _, impossible⟩
        · cases same
          cases row
          exact .row (stands.part_key known)
        · cases impossible
      · cases impossible
  | part stands =>
      rcases readStatement_cases read with ⟨inner, _, header⟩ | ⟨above, key, v, reads, same⟩
      · exact absurd header not_readHeader_assign
      · cases same
        obtain ⟨more, assigns, -⟩ := readAssignment_cases reads
        exact .part (stands.part_key assigns)
  | value assigns within =>
      rcases readStatement_cases read with ⟨inner, _, header⟩ | ⟨above, key, v, reads, same⟩
      · exact absurd header not_readHeader_assign
      · cases same
        obtain ⟨more, assigns', reads⟩ := readAssignment_cases reads
        cases assigns.symm.trans assigns'
        exact .value (within.leads reads)

theorem KeyAt.shows {doc final : Document} {cs spot : List Char} {statements : List Statement}
    {closed : Entries} {keys : List String} (there : KeyAt doc cs keys spot)
    (read : readStatements cs = some statements) (sound : doc.Sound)
    (run : statements.foldlM Document.add doc = some final)
    (closing : final.close = some closed) : closed.Shows keys := by
  induction there generalizing statements with
  | here first added sets =>
      rcases readStatements_cases read with ⟨ended, -⟩ | ⟨st, rest, more, others, first', tail⟩
      · rw [ended] at first
        cases first
      · cases first.symm.trans first'
        obtain ⟨ends, less, known, rfl⟩ := tail
        rw [List.foldlM_cons, added] at run
        -- It is found once it has been set, and no later statement takes it away.
        have set := (sets.sets first).shows added
        exact set.run (sound.add added) run closing
  | later first added ends there ih =>
      rcases readStatements_cases read with ⟨ended, -⟩ | ⟨st, rest, more, others, first', tail⟩
      · rw [ended] at first
        cases first
      · cases first.symm.trans first'
        obtain ⟨ends', less, known, rfl⟩ := tail
        cases ends.symm.trans ends'
        rw [List.foldlM_cons, added] at run
        exact ih known (sound.add added) run

/-- The keys that stand in a file are the keys of its table. -/
theorem exists_keyAt_iff {content : String} {d : Toml} {keys : List String}
    (parsed : parse? content = some d) :
    (∃ spot, KeyAt .start (dropMark content.toList) keys spot) ↔ d.Leads keys := by
  refine ⟨fun ⟨spot, there⟩ => ?_, exists_keyAt parsed⟩
  obtain ⟨statements, final, closed, read, run, closing, rfl⟩ := parse?_cases parsed
  exact (there.shows read rfl run closing).leads

end Toml
end StackSynth
