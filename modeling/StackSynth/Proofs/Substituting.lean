import StackSynth.Proofs.Referring

/-!
# Substituting — text divided at its references

A text is plain text and references by turns, and perhaps a reference at its end that is not
closed.  Since an opening cannot overlap another one, every text is divided in one way only.  What
a reference stands for takes its place as it is; plain text stays, and so does whatever else looks
like an interpolation.

* `Asset.Shows`, `Placeholder.Gives` — what an asset shows under a name, and what stands for a
  reference;
* `Placeholder.Division` — a text divided at its references, with `Division.text_inj` and
  `exists_division`;
* `Division.Fills`, `Division.Stops` — all references resolved, and the first one that is not;
* `Placeholder.resolve_exact` — the result for every text.
-/

namespace StackSynth

/-! ## What a reference stands for -/

/-- What an asset shows under each of its names. -/
inductive Asset.Shows (asset : Asset) : String → String → Prop where
  | fileName {name : String} : name ∈ ["file_name", "fileName"] → Shows asset name asset.fileName
  | path : Shows asset "path" asset.path
  | hash {name : String} : name ∈ ["hash", "asset_hash", "assetHash"] →
      Shows asset name asset.hash.text

theorem Asset.attribute?_eq_some_iff {asset : Asset} {name value : String} :
    asset.attribute? name = some value ↔ asset.Shows name value := by
  constructor
  · intro shown
    unfold attribute? at shown
    split at shown
    · next named =>
      obtain rfl := Option.some.inj shown
      exact .fileName (by simpa using named)
    · split at shown
      · next named =>
        obtain rfl := Option.some.inj shown
        exact named ▸ .path
      · split at shown
        · next named =>
          obtain rfl := Option.some.inj shown
          exact .hash (by simpa [or_assoc] using named)
        · cases shown
  · rintro (named | _ | named)
    · rcases List.mem_pair.mp named with rfl | rfl <;> rfl
    · rfl
    · simp only [List.mem_cons, List.not_mem_nil, or_false] at named
      rcases named with rfl | rfl | rfl <;> rfl

namespace Placeholder

variable {assets : List Asset} {inner plain front rest : List Char}

/-- Up to its first dot, what stands in a reference is the id of an asset, the first one that goes
by it, and behind the dot is the name of what that asset shows. -/
def Gives (assets : List Asset) (inner : List Char) (value : String) : Prop :=
  ∃ id name before asset others, inner = id ++ '.' :: name ∧ '.' ∉ id
    ∧ assets = before ++ asset :: others ∧ asset.id.text = String.ofList id
    ∧ (∀ other ∈ before, other.id.text ≠ String.ofList id)
    ∧ asset.Shows (String.ofList name) value

theorem lookup?_eq_some_iff {value : String} :
    lookup? assets inner = some value ↔ Gives assets inner value := by
  unfold lookup?
  constructor
  · intro found
    obtain ⟨⟨id, name⟩, parts, found⟩ := Option.bind_eq_some_iff.mp found
    obtain ⟨asset, known, shown⟩ := Option.bind_eq_some_iff.mp found
    obtain ⟨rfl, absent⟩ := splitAt?_eq_some_iff.mp parts
    obtain ⟨same, before, others, rfl, fresh⟩ := List.find?_eq_some_iff_append.mp known
    exact ⟨id, name, before, asset, others, rfl, absent, rfl, by simpa using same,
      fun other member => by simpa using fresh other member, Asset.attribute?_eq_some_iff.mp shown⟩
  · rintro ⟨id, name, before, asset, others, rfl, absent, rfl, same, fresh, shown⟩
    refine Option.bind_eq_some_iff.mpr ⟨(id, name), splitAt?_eq_some_iff.mpr ⟨rfl, absent⟩, ?_⟩
    refine Option.bind_eq_some_iff.mpr ⟨asset, ?_, Asset.attribute?_eq_some_iff.mpr shown⟩
    exact List.find?_eq_some_iff_append.mpr ⟨by simpa using same, before, others, rfl,
      fun other member => by simpa using fresh other member⟩

theorem lookup?_eq_none_iff :
    lookup? assets inner = none ↔ ∀ value, ¬ Gives assets inner value := by
  rw [Option.eq_none_iff_forall_ne_some]
  exact forall_congr' fun value => not_congr lookup?_eq_some_iff

theorem Gives.unique {value other : String} (one : Gives assets inner value)
    (two : Gives assets inner other) : value = other :=
  Option.some.inj ((lookup?_eq_some_iff.mpr one).symm.trans (lookup?_eq_some_iff.mpr two))

/-! ## Openings -/

/-- An opening does not begin inside of another one. -/
theorem opening_prefix_front (some : front ≠ []) (opens : opening <+: front ++ (opening ++ rest)) :
    opening <+: front := by
  obtain ⟨more, same⟩ := opens
  rcases List.append_eq_append_iff.mp same with ⟨between, rfl, -⟩ | ⟨between, parts, others⟩
  · exact List.prefix_append opening between
  · cases between with
    | nil => exact ⟨[], by simpa using parts⟩
    | cons c between =>
        -- The next opening would begin in the tail of this one, which has no dollar sign.
        obtain ⟨rfl, -⟩ : c = '$' ∧ _ := List.cons.inj others.symm
        obtain ⟨d, front, rfl⟩ := List.exists_cons_of_ne_nil some
        have inside : '$' ∈ opening.tail := by
          rw [parts]
          simp
        exact absurd inside (by decide)

/-- Plain text in front of an opening holds nothing of it. -/
theorem bare_front {plain' rest' : List Char} (bare : ¬ opening <:+: plain)
    (same : plain ++ (opening ++ rest) = plain' ++ (opening ++ rest')) : plain <+: plain' := by
  rcases List.append_eq_append_iff.mp same with ⟨between, rfl, -⟩ | ⟨between, rfl, others⟩
  · exact List.prefix_append plain between
  · cases between with
    | nil => simp
    | cons c between =>
        refine absurd ?_ bare
        have opens : opening <+: (c :: between) ++ (opening ++ rest) := ⟨rest', others⟩
        exact (opening_prefix_front (List.cons_ne_nil c between) opens).isInfix.trans
          (List.suffix_append plain' _).isInfix

theorem plain_unique {plain' rest' : List Char} (bare : ¬ opening <:+: plain)
    (bare' : ¬ opening <:+: plain')
    (same : plain ++ (opening ++ rest) = plain' ++ (opening ++ rest')) :
    plain = plain' ∧ rest = rest' := by
  have equal : plain = plain' := (bare_front bare same).eq_of_length_le
    (bare_front bare' same.symm).length_le
  subst equal
  exact ⟨rfl, List.append_cancel_left (List.append_cancel_left same)⟩

/-- Plain text is not the front of an opening and what surrounds it. -/
theorem ne_of_bare {plain' : List Char} (bare : ¬ opening <:+: plain) :
    plain ≠ plain' ++ (opening ++ rest) := by
  rintro rfl
  exact bare ⟨plain', rest, List.append_assoc _ _ _⟩

/-- The scan passes plain text up to the next opening, or to the end. -/
theorem resolveChars_front (bare : ¬ opening <:+: plain) (rest : List Char)
    (next : rest = [] ∨ opening <+: rest) :
    resolveChars assets (plain ++ rest) = (do return plain ++ (← resolveChars assets rest)) := by
  induction plain with
  | nil =>
      rw [List.nil_append]
      cases resolveChars assets rest <;> rfl
  | cons c plain ih =>
      have other : ¬ opening <+: c :: (plain ++ rest) := by
        intro opens
        refine bare (List.IsPrefix.isInfix ?_)
        rcases next with rfl | ⟨more, rfl⟩
        · simpa using opens
        · exact opening_prefix_front (List.cons_ne_nil c plain) opens
      rw [List.cons_append, resolveChars_plain other,
        ih fun inside => bare (inside.trans (List.suffix_cons c plain).isInfix)]
      cases resolveChars assets rest <;> rfl

/-! ## Divisions -/

/-- A text divided at its references.  No opening stands in plain text, and no closing brace in a
reference, or behind the opening of one that is not closed. -/
inductive Division where
  | last (plain : List Char) (bare : ¬ opening <:+: plain)
  | unclosed (plain : List Char) (bare : ¬ opening <:+: plain) (rest : List Char)
      (unclosed : '}' ∉ rest)
  | reference (plain : List Char) (bare : ¬ opening <:+: plain) (inner : List Char)
      (closed : '}' ∉ inner) (others : Division)

namespace Division

/-- The text that is divided. -/
def text : Division → List Char
  | last plain _ => plain
  | unclosed plain _ rest _ => plain ++ (opening ++ rest)
  | reference plain _ inner _ others => plain ++ (opening ++ (inner ++ '}' :: others.text))

/-- Every text is divided in one way at most. -/
theorem text_inj {one other : Division} (same : one.text = other.text) : one = other := by
  -- The plain part ends at the first opening mark, the reference at the first closing one after it.
  induction one generalizing other with
  | last plain bare =>
      cases other with
      | last plain' =>
          obtain rfl : plain = plain' := same
          rfl
      | unclosed | reference => exact absurd same (ne_of_bare bare)
  | unclosed plain bare rest unclosed =>
      cases other with
      | last plain' bare' => exact absurd same.symm (ne_of_bare bare')
      | unclosed plain' bare' rest' =>
          obtain ⟨rfl, rfl⟩ := plain_unique bare bare' same
          rfl
      | reference plain' bare' inner =>
          obtain ⟨rfl, rfl⟩ := plain_unique bare bare' same
          simp at unclosed
  | reference plain bare inner closed others ih =>
      cases other with
      | last plain' bare' => exact absurd same.symm (ne_of_bare bare')
      | unclosed plain' bare' rest unclosed =>
          obtain ⟨rfl, rfl⟩ := plain_unique bare bare' same
          simp at unclosed
      | reference plain' bare' inner' closed' others' =>
          obtain ⟨rfl, behind⟩ := plain_unique bare bare' same
          obtain ⟨rfl, after⟩ := front_unique closed closed' behind
          obtain rfl := ih after
          rfl

/-- One character more in front of the plain text. -/
theorem exists_cons {c : Char} (division : Division)
    (other : ¬ opening <+: c :: division.text) : ∃ longer : Division, longer.text = c :: division.text := by
  have still : ∀ {plain : List Char} (more : List Char), ¬ opening <:+: plain →
      ¬ opening <+: c :: (plain ++ more) → ¬ opening <:+: c :: plain := by
    intro plain more bare other inside
    rcases List.infix_cons_iff.mp inside with opens | inside
    · exact other (opens.trans (List.prefix_append (c :: plain) more))
    · exact bare inside
  cases division with
  | last plain bare =>
      exact ⟨last (c :: plain) (still [] bare (by simpa [text] using other)), rfl⟩
  | unclosed plain bare rest unclosed =>
      exact ⟨.unclosed (c :: plain) (still _ bare other) rest unclosed, rfl⟩
  | reference plain bare inner closed others =>
      exact ⟨reference (c :: plain) (still _ bare other) inner closed others, rfl⟩

/-- Every text is divided. -/
theorem exists_division (cs : List Char) : ∃ division : Division, division.text = cs := by
  induction cs using scanning with
  | nil => exact ⟨last [] (by decide), rfl⟩
  | plain c cs other ih =>
      obtain ⟨division, rfl⟩ := ih
      exact division.exists_cons other
  | unclosed rest unclosed => exact ⟨.unclosed [] (by decide) rest unclosed, rfl⟩
  | reference inner after closed ih =>
      obtain ⟨division, rfl⟩ := ih
      exact ⟨reference [] (by decide) inner closed division, rfl⟩

/-! ## Resolving -/

/-- Every reference stands for something, none is left open, and this is the text with all of them
replaced; what is put in is not divided again. -/
inductive Fills (assets : List Asset) : Division → List Char → Prop where
  | last (plain : List Char) (bare : ¬ opening <:+: plain) : Fills assets (last plain bare) plain
  | reference {plain inner made : List Char} {bare : ¬ opening <:+: plain} {closed : '}' ∉ inner}
      {value : String} {others : Division} : Gives assets inner value → Fills assets others made →
      Fills assets (reference plain bare inner closed others) (plain ++ (value.toList ++ made))

/-- The first reference that stands for nothing, or else the one that is not closed, with all that
follows it. -/
inductive Stops (assets : List Asset) : Division → List Char → Prop where
  | unclosed (plain : List Char) (bare : ¬ opening <:+: plain) (rest : List Char)
      (unclosed : '}' ∉ rest) : Stops assets (.unclosed plain bare rest unclosed) (opening ++ rest)
  | unknown {plain inner : List Char} {bare : ¬ opening <:+: plain} {closed : '}' ∉ inner}
      {others : Division} : (∀ value, ¬ Gives assets inner value) →
      Stops assets (reference plain bare inner closed others) (opening ++ inner ++ ['}'])
  | later {plain inner reference : List Char} {bare : ¬ opening <:+: plain} {closed : '}' ∉ inner}
      {value : String} {others : Division} : Gives assets inner value → Stops assets others reference →
      Stops assets (.reference plain bare inner closed others) reference

theorem resolveChars_ok_iff {division : Division} {made : List Char} :
    resolveChars assets division.text = .ok made ↔ division.Fills assets made := by
  induction division generalizing made with
  | last plain bare =>
      rw [text, resolveChars_of_not_infix bare]
      constructor
      · exact fun done => Except.ok.inj done ▸ .last plain bare
      · exact fun | .last _ _ => rfl
  | unclosed plain bare rest unclosed =>
      rw [text, resolveChars_front bare _ (Or.inr (List.prefix_append _ _)),
        resolveChars_unclosed unclosed]
      exact ⟨nofun, nofun⟩
  | reference plain bare inner closed others ih =>
      rw [text, resolveChars_front bare _ (Or.inr (List.prefix_append _ _)),
        resolveChars_reference closed]
      -- An unknown reference fills nothing; behind a known one the rest of the text decides.
      cases found : lookup? assets inner with
      | none =>
          refine ⟨nofun, fun filled => ?_⟩
          cases filled with
          | reference given _ => exact absurd given (lookup?_eq_none_iff.mp found _)
      | some value =>
          have given := lookup?_eq_some_iff.mp found
          simp only [bind_eq_ok_iff, ih]
          constructor
          · rintro ⟨_, ⟨after, filled, same⟩, done⟩
            cases same
            exact Except.ok.inj done ▸ .reference given filled
          · intro filled
            cases filled with
            | reference given' filled =>
                rw [given.unique given']
                exact ⟨_, ⟨_, filled, rfl⟩, rfl⟩

theorem resolveChars_error_iff {division : Division} {e : Failure} :
    resolveChars assets division.text = .error e
      ↔ ∃ reference, e = .unresolved (String.ofList reference) ∧ division.Stops assets reference := by
  induction division with
  | last plain bare =>
      rw [text, resolveChars_of_not_infix bare]
      exact ⟨nofun, fun ⟨_, _, stops⟩ => nomatch stops⟩
  | unclosed plain bare rest unclosed =>
      rw [text, resolveChars_front bare _ (Or.inr (List.prefix_append _ _)),
        resolveChars_unclosed unclosed]
      constructor
      · exact fun failed => ⟨_, (Except.error.inj failed).symm, .unclosed plain bare rest unclosed⟩
      · rintro ⟨_, rfl, stops⟩
        cases stops with
        | unclosed => rfl
  | reference plain bare inner closed others ih =>
      rw [text, resolveChars_front bare _ (Or.inr (List.prefix_append _ _)),
        resolveChars_reference closed]
      cases found : lookup? assets inner with
      | none =>
          have nothing := lookup?_eq_none_iff.mp found
          constructor
          · exact fun failed => ⟨_, (Except.error.inj failed).symm, .unknown nothing⟩
          · rintro ⟨_, rfl, stops⟩
            cases stops with
            | unknown => rfl
            | later given _ => exact absurd given (nothing _)
      | some value =>
          have given := lookup?_eq_some_iff.mp found
          -- A failure behind a known reference is the failure of the rest.
          have passed : (do return plain ++ (← (do return value.toList
              ++ (← resolveChars assets others.text) : Except Failure (List Char)))) = .error e
              ↔ resolveChars assets others.text = .error e := by
            cases resolveChars assets others.text <;> simp [bind, Except.bind, pure, Except.pure]
          refine passed.trans (ih.trans ?_)
          constructor
          · exact fun ⟨named, same, stops⟩ => ⟨named, same, .later given stops⟩
          · rintro ⟨named, same, stops⟩
            cases stops with
            | unknown nothing => exact absurd given (nothing value)
            | later _ stops => exact ⟨named, same, stops⟩

end Division

/-- Every text is divided in exactly one way.  If all references of the division stand for
something, and none is left open, then each is replaced by that, and nothing else is changed; or
else the first that does not is reported.  So text without an opening comes back as it was. -/
theorem resolve_exact (assets : List Asset) (text : String) :
    ∃ division : Division, (∀ other : Division, other.text = text.toList ↔ other = division)
      ∧ (∀ made, resolve assets text = .ok made ↔ division.Fills assets made.toList)
      ∧ (∀ e, resolve assets text = .error e ↔ ∃ reference,
        e = .unresolved (String.ofList reference) ∧ division.Stops assets reference)
      ∧ (¬ opening <:+: text.toList → resolve assets text = .ok text) := by
  obtain ⟨division, same⟩ := Division.exists_division text.toList
  refine ⟨division, fun other => ⟨fun also => ?_, ?_⟩, fun made => ?_, fun e => ?_, fun absent => ?_⟩
  · exact Division.text_inj (also.trans same.symm)
  · rintro rfl
    exact same
  · rw [resolve_ok_iff, ← same, Division.resolveChars_ok_iff]
  · rw [← Division.resolveChars_error_iff, same]
    unfold resolve
    cases resolveChars assets text.toList <;> simp [bind, Except.bind, pure, Except.pure]
  · rw [resolve_ok_iff]
    exact resolveChars_of_not_infix absent

end Placeholder
end StackSynth
