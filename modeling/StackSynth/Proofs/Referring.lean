import Mathlib
import StackSynth.Placeholder
import StackSynth.Proofs.Action

/-!
# Referring — references that cannot be resolved

Text is scanned from its front.  A reference ends at the first closing brace behind its opening,
and what comes next is scanned on; what stands in a reference is not scanned.

* `Placeholder.scanning` — induction along the scan;
* `Placeholder.Scans`, `Placeholder.Dangling` — the places where scanning stops on its way, and a
  reference at one of them that is not closed or names nothing;
* `Placeholder.resolveChars_error_iff` — only such a reference keeps text from being resolved;
* `Placeholder.Filled`, `Json.Leaf` — documents with their strings resolved, and these strings;
* `Placeholder.resolveJson_ok_iff`, `resolveJson_error_iff` — the same for documents.
-/

namespace StackSynth

/-- The names of what can be referred to of an asset. -/
def Asset.attributeNames : List String :=
  ["file_name", "fileName", "path", "hash", "asset_hash", "assetHash"]

theorem Asset.attribute?_isSome_iff (asset : Asset) {name : String} :
    (asset.attribute? name).isSome = true ↔ name ∈ attributeNames := by
  unfold attribute? attributeNames
  split
  · simp_all
    grind
  · split
    · simp_all
    · split <;> simp_all
      grind

/-- A string that stands in a document at any depth; keys are none. -/
inductive Json.Leaf : Json → String → Prop where
  | here (text : String) : Leaf (.string text) text
  | item {items : List Json} {item : Json} {text : String} : item ∈ items → Leaf item text →
      Leaf (.array items) text
  | member {members : List (String × Json)} {key : String} {value : Json} {text : String} :
      (key, value) ∈ members → Leaf value text → Leaf (.object members) text

namespace Placeholder

variable {assets : List Asset} {ids : List String} {c : Char} {cs inner after rest : List Char}

/-! ## Separators -/

theorem splitAt?_eq_none_iff {separator : Char} :
    splitAt? separator cs = none ↔ separator ∉ cs := by
  induction cs with
  | nil => simp [splitAt?]
  | cons c cs ih =>
      rw [splitAt?]
      by_cases same : c = separator
      · simp [same]
      · simp [same, ih, Ne.symm same]

theorem splitAt?_eq_some_iff {separator : Char} {front : List Char} :
    splitAt? separator cs = some (front, rest)
      ↔ cs = front ++ separator :: rest ∧ separator ∉ front := by
  induction cs generalizing front rest with
  | nil => simp [splitAt?]
  | cons c cs ih =>
      rw [splitAt?]
      by_cases same : c = separator
      · subst same
        cases front with
        | nil => simp
        | cons d front => simp +contextual
      · cases front with
        | nil => simp [same]
        | cons d front =>
            simp only [same, if_false, Option.map_eq_some_iff, Prod.exists, ih, Prod.mk.injEq,
              List.cons.injEq, List.cons_append, List.mem_cons, not_or]
            constructor
            · rintro ⟨_, _, ⟨rfl, absent⟩, ⟨rfl, rfl⟩, rfl⟩
              exact ⟨⟨rfl, rfl⟩, Ne.symm same, absent⟩
            · rintro ⟨⟨rfl, rfl⟩, -, absent⟩
              exact ⟨_, _, ⟨rfl, absent⟩, ⟨rfl, rfl⟩, rfl⟩

/-- A text comes apart in one way at the first of its separators. -/
theorem front_unique {separator : Char} {front front' rest' : List Char} (free : separator ∉ front)
    (free' : separator ∉ front') (same : front ++ separator :: rest = front' ++ separator :: rest') :
    front = front' ∧ rest = rest' := by
  have one : splitAt? separator (front ++ separator :: rest) = some (front, rest) :=
    splitAt?_eq_some_iff.mpr ⟨rfl, free⟩
  have other := splitAt?_eq_some_iff.mpr ⟨same, free'⟩
  exact Prod.mk.inj (Option.some.inj (one.symm.trans other))

/-! ## Scanning -/

/-- Induction along the scan of a text. -/
@[elab_as_elim]
theorem scanning {motive : List Char → Prop} (nil : motive [])
    (plain : ∀ c cs, ¬ opening <+: c :: cs → motive cs → motive (c :: cs))
    (unclosed : ∀ rest, '}' ∉ rest → motive (opening ++ rest))
    (reference : ∀ inner after, '}' ∉ inner → motive after →
      motive (opening ++ (inner ++ '}' :: after))) (cs : List Char) : motive cs := by
  induction length : cs.length using Nat.strong_induction_on generalizing cs with
  | _ n shorter =>
      subst length
      match cs with
      | [] => exact nil
      | c :: cs =>
          by_cases opens : opening <+: c :: cs
          · obtain ⟨rest, same⟩ := opens
            rw [← same]
            cases found : splitAt? '}' rest with
            | none => exact unclosed rest (splitAt?_eq_none_iff.mp found)
            | some parts =>
                obtain ⟨rfl, closed⟩ := splitAt?_eq_some_iff.mp found
                refine reference _ _ closed (shorter _ ?_ _ rfl)
                rw [← same]
                simp only [List.length_append, List.length_cons]
                omega
          · exact plain c cs opens (shorter _ (by simp) _ rfl)

theorem opening_isPrefixOf (rest : List Char) :
    opening.isPrefixOf ('$' :: (opening.tail ++ rest)) = true :=
  List.isPrefixOf_iff_prefix.mpr ⟨rest, rfl⟩

theorem resolveChars_plain (other : ¬ opening <+: c :: cs) :
    resolveChars assets (c :: cs) = (do return c :: (← resolveChars assets cs)) := by
  rw [resolveChars, if_neg (by rwa [List.isPrefixOf_iff_prefix])]

theorem resolveChars_unclosed (unclosed : '}' ∉ rest) :
    resolveChars assets (opening ++ rest)
      = .error (.unresolved (String.ofList (opening ++ rest))) := by
  show resolveChars assets ('$' :: (opening.tail ++ rest)) = _
  rw [resolveChars, if_pos (opening_isPrefixOf _)]
  split
  · rfl
  · rename_i found
    cases (splitAt?_eq_none_iff.mpr unclosed).symm.trans found

theorem resolveChars_reference (closed : '}' ∉ inner) :
    resolveChars assets (opening ++ (inner ++ '}' :: after)) =
      match lookup? assets inner with
      | none => .error (.unresolved (String.ofList (opening ++ inner ++ ['}'])))
      | some value => do return value.toList ++ (← resolveChars assets after) := by
  show resolveChars assets ('$' :: (opening.tail ++ (inner ++ '}' :: after))) = _
  rw [resolveChars, if_pos (opening_isPrefixOf _)]
  have ends : splitAt? '}' (inner ++ '}' :: after) = some (inner, after) :=
    splitAt?_eq_some_iff.mpr ⟨rfl, closed⟩
  split
  · rename_i found
    cases ends.symm.trans found
  · rename_i found
    obtain ⟨rfl, rfl⟩ := Prod.mk.inj (Option.some.inj (ends.symm.trans found))
    rfl

/-! ## References that dangle -/

/-- Scanning a text comes to the place where `rest` is left of it. -/
inductive Scans : List Char → List Char → Prop where
  | here (cs : List Char) : Scans cs cs
  | plain {c : Char} {cs rest : List Char} : ¬ opening <+: c :: cs → Scans cs rest →
      Scans (c :: cs) rest
  | reference {inner after rest : List Char} : '}' ∉ inner → Scans after rest →
      Scans (opening ++ (inner ++ '}' :: after)) rest

/-- What stands in a reference names one of the assets, and something that can be referred to. -/
def Names (ids : List String) (inner : List Char) : Prop :=
  ∃ id name, inner = id ++ '.' :: name ∧ '.' ∉ id ∧ String.ofList id ∈ ids
    ∧ String.ofList name ∈ Asset.attributeNames

/-- The text has a reference that is not closed, or one that names nothing. -/
def Dangling (ids : List String) (text : List Char) : Prop :=
  ∃ rest, Scans text (opening ++ rest)
    ∧ ('}' ∉ rest ∨ ∃ inner after, rest = inner ++ '}' :: after ∧ '}' ∉ inner ∧ ¬ Names ids inner)

theorem lookup?_isSome_iff :
    (lookup? assets inner).isSome = true ↔ Names (assets.map fun asset => asset.id.text) inner := by
  unfold lookup?
  constructor
  · intro found
    obtain ⟨value, found⟩ := Option.isSome_iff_exists.mp found
    obtain ⟨⟨id, name⟩, parts, found⟩ := Option.bind_eq_some_iff.mp found
    obtain ⟨asset, known, value⟩ := Option.bind_eq_some_iff.mp found
    obtain ⟨rfl, absent⟩ := splitAt?_eq_some_iff.mp parts
    have same := List.find?_some known
    refine ⟨id, name, rfl, absent, ?_, asset.attribute?_isSome_iff.mp (by rw [value]; rfl)⟩
    exact List.mem_map.mpr ⟨asset, List.mem_of_find?_eq_some known, by simpa using same⟩
  · rintro ⟨id, name, rfl, absent, member, named⟩
    obtain ⟨asset, member, same⟩ := List.mem_map.mp member
    have parts : splitAt? '.' (id ++ '.' :: name) = some (id, name) :=
      splitAt?_eq_some_iff.mpr ⟨rfl, absent⟩
    have known : (assets.find? fun asset => asset.id.text == String.ofList id).isSome = true :=
      List.find?_isSome.mpr ⟨asset, member, by simp [same]⟩
    obtain ⟨found, known⟩ := Option.isSome_iff_exists.mp known
    simpa [parts, known] using found.attribute?_isSome_iff.mpr named

theorem resolveChars_reference_error_iff (closed : '}' ∉ inner) :
    (∃ e, resolveChars assets (opening ++ (inner ++ '}' :: after)) = .error e)
      ↔ ¬ Names (assets.map fun asset => asset.id.text) inner
        ∨ ∃ e, resolveChars assets after = .error e := by
  rw [resolveChars_reference closed, ← lookup?_isSome_iff]
  cases lookup? assets inner with
  | none => simp
  | some value => cases resolveChars assets after <;> simp [bind, Except.bind, pure, Except.pure]

theorem resolveChars_plain_error_iff (other : ¬ opening <+: c :: cs) :
    (∃ e, resolveChars assets (c :: cs) = .error e) ↔ ∃ e, resolveChars assets cs = .error e := by
  rw [resolveChars_plain other]
  cases resolveChars assets cs <;> simp [bind, Except.bind, pure, Except.pure]

/-! ### The same along the scan -/

theorem dangling_nil : ¬ Dangling ids [] := by
  rintro ⟨rest, scans, -⟩
  generalize start : ([] : List Char) = text at scans
  generalize stop : opening ++ rest = left at scans
  cases scans with
  | here => cases start.trans stop.symm
  | plain => cases start
  | reference => cases start

theorem dangling_plain_iff (other : ¬ opening <+: c :: cs) :
    Dangling ids (c :: cs) ↔ Dangling ids cs := by
  constructor
  · rintro ⟨rest, scans, dangles⟩
    generalize start : c :: cs = text at scans
    generalize stop : opening ++ rest = left at scans
    cases scans with
    | here => exact absurd ⟨rest, stop.trans start.symm⟩ other
    | plain _ scans =>
        obtain ⟨rfl, rfl⟩ := List.cons.inj start
        exact ⟨rest, stop ▸ scans, dangles⟩
    | reference => exact absurd ⟨_, start.symm⟩ other
  · rintro ⟨rest, scans, dangles⟩
    exact ⟨rest, .plain other scans, dangles⟩

theorem dangling_unclosed (unclosed : '}' ∉ rest) : Dangling ids (opening ++ rest) :=
  ⟨rest, .here _, Or.inl unclosed⟩

theorem dangling_reference_iff (closed : '}' ∉ inner) :
    Dangling ids (opening ++ (inner ++ '}' :: after)) ↔ ¬ Names ids inner ∨ Dangling ids after := by
  constructor
  · rintro ⟨rest, scans, dangles⟩
    generalize start : opening ++ (inner ++ '}' :: after) = text at scans
    generalize stop : opening ++ rest = left at scans
    cases scans with
    | here =>
        obtain rfl := List.append_cancel_left (start.trans stop.symm)
        rcases dangles with unclosed | ⟨inner', after', same, closed', unknown⟩
        · simp at unclosed
        · obtain ⟨rfl, rfl⟩ := front_unique closed closed' same
          exact Or.inl unknown
    | plain other => exact absurd ⟨_, start⟩ other
    | reference closed' scans =>
        obtain ⟨rfl, rfl⟩ := front_unique closed closed' (List.append_cancel_left start)
        exact Or.inr ⟨rest, stop ▸ scans, dangles⟩
  · rintro (unknown | ⟨rest, scans, dangles⟩)
    · exact ⟨_, .here _, Or.inr ⟨inner, after, rfl, closed, unknown⟩⟩
    · exact ⟨rest, .reference closed scans, dangles⟩

/-- Text fails to be resolved where a reference dangles, and only there. -/
theorem resolveChars_error_iff :
    (∃ e, resolveChars assets cs = .error e)
      ↔ Dangling (assets.map fun asset => asset.id.text) cs := by
  induction cs using scanning with
  | nil => simp [resolveChars, dangling_nil]
  | plain c cs other ih => rw [resolveChars_plain_error_iff other, dangling_plain_iff other, ih]
  | unclosed rest unclosed => simp [resolveChars_unclosed unclosed, dangling_unclosed unclosed]
  | reference inner after closed ih =>
      rw [resolveChars_reference_error_iff closed, dangling_reference_iff closed, ih]

/-! ### Text without references -/

theorem infix_reference : opening <:+: opening ++ rest :=
  (List.prefix_append opening rest).isInfix

theorem infix_plain_iff (other : ¬ opening <+: c :: cs) :
    opening <:+: c :: cs ↔ opening <:+: cs := by
  rw [List.infix_cons_iff, or_iff_right other]

/-- Where there are no assets, every reference dangles. -/
theorem resolveChars_none_error_iff :
    (∃ e, resolveChars [] cs = .error e) ↔ opening <:+: cs := by
  rw [resolveChars_error_iff]
  induction cs using scanning with
  | nil => simp [dangling_nil, opening]
  | plain c cs other ih => rw [dangling_plain_iff other, infix_plain_iff other, ih]
  | unclosed rest unclosed => simp [dangling_unclosed unclosed, infix_reference]
  | reference inner after closed ih =>
      rw [dangling_reference_iff closed]
      simp [Names, infix_reference]

/-- Text without a reference comes back as it was. -/
theorem resolveChars_of_not_infix (absent : ¬ opening <:+: cs) :
    resolveChars assets cs = .ok cs := by
  induction cs using scanning with
  | nil => rw [resolveChars]
  | plain c cs other ih =>
      rw [infix_plain_iff other] at absent
      rw [resolveChars_plain other, ih absent]
      rfl
  | unclosed rest => exact absurd infix_reference absent
  | reference inner after => exact absurd infix_reference absent

/-! ## Documents -/

variable {text : String}

theorem resolve_ok_iff {made : String} :
    resolve assets text = .ok made ↔ resolveChars assets text.toList = .ok made.toList := by
  unfold resolve
  cases resolveChars assets text.toList with
  | error e => simp [bind, Except.bind]
  | ok cs =>
      simp only [bind, Except.bind, pure, Except.pure, Except.ok.injEq]
      rw [← String.toList_inj, String.toList_ofList]

theorem exists_resolve_iff :
    (∃ made, resolve assets text = .ok made)
      ↔ ¬ Dangling (assets.map fun asset => asset.id.text) text.toList := by
  rw [← resolveChars_error_iff]
  unfold resolve
  cases resolveChars assets text.toList <;> simp [bind, Except.bind, pure, Except.pure]

theorem exists_resolve_none_iff :
    (∃ made, resolve [] text = .ok made) ↔ ¬ opening <:+: text.toList := by
  rw [exists_resolve_iff, ← resolveChars_error_iff, resolveChars_none_error_iff]

theorem resolve_of_none {made : String} (resolved : resolve [] text = .ok made) :
    resolve assets text = .ok made := by
  have absent := exists_resolve_none_iff.mp ⟨made, resolved⟩
  rw [resolve_ok_iff, resolveChars_of_not_infix absent] at resolved ⊢
  exact resolved

mutual

/-- The second document is the first one with its strings resolved, and nothing else changed. -/
inductive Filled (assets : List Asset) : Json → Json → Prop where
  | string {text made : String} : resolve assets text = .ok made →
      Filled assets (.string text) (.string made)
  | array {items made : List Json} : FilledItems assets items made →
      Filled assets (.array items) (.array made)
  | object {members made : List (String × Json)} : FilledMembers assets members made →
      Filled assets (.object members) (.object made)
  | null : Filled assets .null .null
  | bool (value : Bool) : Filled assets (.bool value) (.bool value)
  | number (value : Number) : Filled assets (.number value) (.number value)

inductive FilledItems (assets : List Asset) : List Json → List Json → Prop where
  | nil : FilledItems assets [] []
  | cons {item made : Json} {items others : List Json} : Filled assets item made →
      FilledItems assets items others → FilledItems assets (item :: items) (made :: others)

inductive FilledMembers (assets : List Asset) :
    List (String × Json) → List (String × Json) → Prop where
  | nil : FilledMembers assets [] []
  | cons {key : String} {value made : Json} {members others : List (String × Json)} :
      Filled assets value made → FilledMembers assets members others →
      FilledMembers assets ((key, value) :: members) ((key, made) :: others)

end

mutual

theorem resolveJson_ok_iff : ∀ {d made : Json},
    resolveJson assets d = .ok made ↔ Filled assets d made
  | .string text, made => by
      rw [resolveJson, bind_eq_ok_iff]
      constructor
      · rintro ⟨_, resolved, done⟩
        exact Except.ok.inj done ▸ .string resolved
      · exact fun | .string resolved => ⟨_, resolved, rfl⟩
  | .array items, made => by
      rw [resolveJson, bind_eq_ok_iff]
      simp only [resolveItems_ok_iff items]
      constructor
      · rintro ⟨_, filled, done⟩
        exact Except.ok.inj done ▸ .array filled
      · exact fun | .array filled => ⟨_, filled, rfl⟩
  | .object members, made => by
      rw [resolveJson, bind_eq_ok_iff]
      simp only [resolveMembers_ok_iff members]
      constructor
      · rintro ⟨_, filled, done⟩
        exact Except.ok.inj done ▸ .object filled
      · exact fun | .object filled => ⟨_, filled, rfl⟩
  | .null, made => by
      rw [resolveJson]
      exact ⟨fun done => Except.ok.inj done ▸ .null, fun | .null => rfl⟩
  | .bool value, made => by
      rw [resolveJson]
      exact ⟨fun done => Except.ok.inj done ▸ .bool value, fun | .bool _ => rfl⟩
  | .number value, made => by
      rw [resolveJson]
      exact ⟨fun done => Except.ok.inj done ▸ .number value, fun | .number _ => rfl⟩

theorem resolveItems_ok_iff : ∀ (items : List Json) {made : List Json},
    resolveItems assets items = .ok made ↔ FilledItems assets items made
  | [], made => by
      rw [resolveItems]
      exact ⟨fun done => Except.ok.inj done ▸ .nil, fun | .nil => rfl⟩
  | item :: items, made => by
      rw [resolveItems, bind_eq_ok_iff]
      simp only [bind_eq_ok_iff, resolveJson_ok_iff (d := item), resolveItems_ok_iff items]
      constructor
      · rintro ⟨_, first, _, others, done⟩
        exact Except.ok.inj done ▸ .cons first others
      · exact fun | .cons first others => ⟨_, first, _, others, rfl⟩

theorem resolveMembers_ok_iff : ∀ (members : List (String × Json)) {made : List (String × Json)},
    resolveMembers assets members = .ok made ↔ FilledMembers assets members made
  | [], made => by
      rw [resolveMembers]
      exact ⟨fun done => Except.ok.inj done ▸ .nil, fun | .nil => rfl⟩
  | (key, value) :: members, made => by
      rw [resolveMembers, bind_eq_ok_iff]
      simp only [bind_eq_ok_iff, resolveJson_ok_iff (d := value),
        resolveMembers_ok_iff members]
      constructor
      · rintro ⟨_, first, _, others, done⟩
        exact Except.ok.inj done ▸ .cons first others
      · exact fun | .cons first others => ⟨_, first, _, others, rfl⟩

end

/-! ### Which documents can be resolved -/

mutual

theorem exists_filled_iff : ∀ {d : Json}, (∃ made, Filled assets d made)
    ↔ ∀ text, d.Leaf text → ∃ made, resolve assets text = .ok made
  | .string text => by
      constructor
      · rintro ⟨_, resolved | _⟩ _ (leaf | _)
        exact ⟨_, resolved⟩
      · intro each
        obtain ⟨made, resolved⟩ := each text (.here text)
        exact ⟨_, .string resolved⟩
  | .array items => by
      have inside := exists_filledItems_iff items
      constructor
      · rintro ⟨_, _ | filled⟩ text (_ | ⟨member, leaf⟩)
        exact inside.mp ⟨_, filled⟩ _ member text leaf
      · intro each
        obtain ⟨made, filled⟩ :=
          inside.mpr fun item member text leaf => each text (.item member leaf)
        exact ⟨_, .array filled⟩
  | .object members => by
      have inside := exists_filledMembers_iff members
      constructor
      · rintro ⟨_, _ | _ | filled⟩ text (_ | _ | ⟨member, leaf⟩)
        exact inside.mp ⟨_, filled⟩ _ member text leaf
      · intro each
        obtain ⟨made, filled⟩ :=
          inside.mpr fun entry member text leaf => each text (.member member leaf)
        exact ⟨_, .object filled⟩
  | .null => ⟨fun _ _ leaf => (nomatch leaf), fun _ => ⟨_, .null⟩⟩
  | .bool value => ⟨fun _ _ leaf => (nomatch leaf), fun _ => ⟨_, .bool value⟩⟩
  | .number value => ⟨fun _ _ leaf => (nomatch leaf), fun _ => ⟨_, .number value⟩⟩

theorem exists_filledItems_iff : ∀ (items : List Json), (∃ made, FilledItems assets items made)
    ↔ ∀ item ∈ items, ∀ text, item.Leaf text → ∃ made, resolve assets text = .ok made
  | [] => by simpa using ⟨[], FilledItems.nil⟩
  | item :: items => by
      rw [List.forall_mem_cons, ← exists_filled_iff (d := item),
        ← exists_filledItems_iff items]
      constructor
      · rintro ⟨_, _ | ⟨first, others⟩⟩
        exact ⟨⟨_, first⟩, _, others⟩
      · rintro ⟨⟨_, first⟩, _, others⟩
        exact ⟨_, .cons first others⟩

theorem exists_filledMembers_iff : ∀ (members : List (String × Json)),
    (∃ made, FilledMembers assets members made)
      ↔ ∀ entry ∈ members, ∀ text, entry.2.Leaf text → ∃ made, resolve assets text = .ok made
  | [] => by simpa using ⟨[], FilledMembers.nil⟩
  | (key, value) :: members => by
      rw [List.forall_mem_cons, ← exists_filled_iff (d := value),
        ← exists_filledMembers_iff members]
      constructor
      · rintro ⟨_, _ | ⟨first, others⟩⟩
        exact ⟨⟨_, first⟩, _, others⟩
      · rintro ⟨⟨_, first⟩, _, others⟩
        exact ⟨_, .cons first others⟩

end

mutual

/-- What can be resolved without any assets has no references. -/
theorem Filled.of_none : ∀ {d made : Json}, Filled [] d made → Filled assets d made
  | _, _, .string resolved => .string (resolve_of_none resolved)
  | _, _, .array filled => .array filled.of_none
  | _, _, .object filled => .object filled.of_none
  | _, _, .null => .null
  | _, _, .bool value => .bool value
  | _, _, .number value => .number value

theorem FilledItems.of_none : ∀ {items made : List Json},
    FilledItems [] items made → FilledItems assets items made
  | _, _, .nil => .nil
  | _, _, .cons first others => .cons first.of_none others.of_none

theorem FilledMembers.of_none : ∀ {members made : List (String × Json)},
    FilledMembers [] members made → FilledMembers assets members made
  | _, _, .nil => .nil
  | _, _, .cons first others => .cons first.of_none others.of_none

end

end Placeholder
end StackSynth
