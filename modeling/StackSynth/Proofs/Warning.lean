import StackSynth.Proofs.EditDistance
import StackSynth.Warning

/-!
# Warning — the key that may have been meant

A suggestion is the first of the known keys that are nearest to an unknown one, if it is near
enough.  How near a key is, is the least number of octets that have to be put in, taken out or
replaced.

* `Warning.FirstNearest` — the first of the nearest words of a list;
* `Warning.nearest?_eq_some_iff` — the search finds it;
* `Warning.suggestion_nearest` — what is suggested, and when nothing is.
-/

namespace StackSynth
namespace Warning

variable {unknown word first : String} {words : List String} {n : Nat}

/-! ## The nearest of some words -/

/-- None of the words is nearer than this one, and the words in front of it are farther. -/
def FirstNearest (unknown : String) (words : List String) (word : String) : Prop :=
  ∃ front back, words = front ++ word :: back
    ∧ (∀ other ∈ front, distance unknown word < distance unknown other)
    ∧ ∀ other ∈ back, distance unknown word ≤ distance unknown other

theorem FirstNearest.mem (nearest : FirstNearest unknown words word) : word ∈ words := by
  obtain ⟨front, back, rfl, -, -⟩ := nearest
  simp

theorem FirstNearest.le (nearest : FirstNearest unknown words word) :
    ∀ other ∈ words, distance unknown word ≤ distance unknown other := by
  obtain ⟨front, back, rfl, before, behind⟩ := nearest
  simp only [List.forall_mem_append, List.forall_mem_cons]
  exact ⟨fun other member => (before other member).le, le_rfl, behind⟩

/-- The first word of all is the one, or it is farther than the one behind it. -/
theorem firstNearest_cons_iff : FirstNearest unknown (first :: words) word
    ↔ (word = first ∧ ∀ other ∈ words, distance unknown first ≤ distance unknown other)
      ∨ FirstNearest unknown words word ∧ distance unknown word < distance unknown first := by
  constructor
  · rintro ⟨front, back, whole, before, behind⟩
    rcases List.cons_eq_append_iff.mp whole with ⟨rfl, same⟩ | ⟨front, rfl, rfl⟩
    · obtain ⟨rfl, rfl⟩ := List.cons.inj same
      exact Or.inl ⟨rfl, behind⟩
    · obtain ⟨farther, before⟩ := List.forall_mem_cons.mp before
      exact Or.inr ⟨⟨front, back, rfl, before, behind⟩, farther⟩
  · rintro (⟨rfl, behind⟩ | ⟨⟨front, back, rfl, before, behind⟩, farther⟩)
    · exact ⟨[], words, rfl, by simp, behind⟩
    · exact ⟨first :: front, back, rfl, List.forall_mem_cons.mpr ⟨farther, before⟩, behind⟩

theorem nearest?_eq_none_iff : nearest? unknown words = none ↔ words = [] := by
  cases words with
  | nil => simp [nearest?]
  | cons first rest =>
      rw [nearest?]
      split
      · simp
      · split <;> simp

/-- The search goes from the end: what it finds behind a word has to be nearer to be kept. -/
theorem nearest?_eq_some_iff : nearest? unknown words = some (word, n)
    ↔ FirstNearest unknown words word ∧ n = distance unknown word := by
  induction words generalizing word n with
  | nil => simp [nearest?, FirstNearest]
  | cons first rest ih =>
      -- What is nearest behind the first word is compared with it; on a tie the first word wins.
      rw [firstNearest_cons_iff, nearest?]
      cases found : nearest? unknown rest with
      | none =>
          obtain rfl := nearest?_eq_none_iff.mp found
          simp only [Option.some.injEq, Prod.mk.injEq]
          constructor
          · rintro ⟨rfl, rfl⟩
            exact ⟨Or.inl ⟨rfl, by simp⟩, rfl⟩
          · rintro ⟨⟨rfl, -⟩ | ⟨nearest, -⟩, rfl⟩
            · exact ⟨rfl, rfl⟩
            · cases nearest.mem
      | some other =>
          obtain ⟨near, far⟩ := other
          obtain ⟨nearest, rfl⟩ := ih.mp found
          simp only
          split
          · rename_i nearer
            rw [← found, ih]
            constructor
            · rintro ⟨isNearest, rfl⟩
              exact ⟨Or.inr ⟨isNearest, (isNearest.le near nearest.mem).trans_lt nearer⟩, rfl⟩
            · rintro ⟨⟨rfl, behind⟩ | ⟨isNearest, -⟩, rfl⟩
              · exact absurd (behind near nearest.mem) (Nat.not_le.mpr nearer)
              · exact ⟨isNearest, rfl⟩
          · rename_i farther
            have least : ∀ other ∈ rest, distance unknown first ≤ distance unknown other :=
              fun other member => (Nat.not_lt.mp farther).trans (nearest.le other member)
            simp only [Option.some.injEq, Prod.mk.injEq]
            constructor
            · rintro ⟨rfl, rfl⟩
              exact ⟨Or.inl ⟨rfl, least⟩, rfl⟩
            · rintro ⟨⟨rfl, -⟩ | ⟨isNearest, nearer⟩, rfl⟩
              · exact ⟨rfl, rfl⟩
              · exact absurd nearer (Nat.not_lt.mpr (least word isNearest.mem))

theorem exists_firstNearest (unknown : String) (some : words ≠ []) :
    ∃ word, FirstNearest unknown words word := by
  cases found : nearest? unknown words with
  | none => exact absurd (nearest?_eq_none_iff.mp found) some
  | some nearest =>
      obtain ⟨word, n⟩ := nearest
      exact ⟨word, (nearest?_eq_some_iff.mp found).1⟩

/-! ## Suggestions -/

theorem suggestion?_eq (nearest : FirstNearest unknown knownKeys word) : suggestion? unknown
    = if 0 < distance unknown word ∧ distance unknown word ≤ 2 then some word else none := by
  have found : nearest? unknown knownKeys = some (word, distance unknown word) :=
    nearest?_eq_some_iff.mpr ⟨nearest, rfl⟩
  unfold suggestion?
  rw [found]
  simp only [Bool.and_eq_true, decide_eq_true_eq]
  rw [suggestionLimit]

theorem distance_self (word : String) : distance word word = 0 :=
  Nat.le_zero.mp ((EditDistance.distance_isLeast _ _).2 (.none _))

/-- The distance of two octet strings is the least number of edits, the first of the known keys
that are nearest is suggested if it is one or two edits away, and nothing is suggested if it is
farther or is the key itself. -/
theorem suggestion_nearest :
    (∀ a b : Bytes, IsLeast {n | EditDistance.Edits n a b} (EditDistance.distance a b))
      ∧ ∀ unknown : String,
        (∀ word, suggestion? unknown = some word ↔ FirstNearest unknown knownKeys word
          ∧ (distance unknown word = 1 ∨ distance unknown word = 2))
        ∧ (suggestion? unknown = none ↔ ∃ word, FirstNearest unknown knownKeys word
          ∧ (distance unknown word = 0 ∨ 2 < distance unknown word))
        ∧ (unknown ∈ knownKeys → suggestion? unknown = none) := by
  refine ⟨EditDistance.distance_isLeast, fun unknown => ?_⟩
  obtain ⟨near, nearest⟩ := exists_firstNearest unknown (List.cons_ne_nil _ _ : knownKeys ≠ [])
  refine ⟨fun word => ⟨fun suggested => ?_, ?_⟩, ⟨fun nothing => ⟨near, nearest, ?_⟩, ?_⟩, ?_⟩
  · rw [suggestion?_eq nearest] at suggested
    split at suggested
    · obtain rfl := Option.some.inj suggested
      exact ⟨nearest, by omega⟩
    · cases suggested
  · rintro ⟨isNearest, close⟩
    rw [suggestion?_eq isNearest, if_pos (by omega)]
  · rw [suggestion?_eq nearest] at nothing
    split at nothing
    · cases nothing
    · omega
  · rintro ⟨word, isNearest, far⟩
    rw [suggestion?_eq isNearest, if_neg (by omega)]
  · intro known
    have same : distance unknown near = 0 :=
      Nat.le_zero.mp (distance_self unknown ▸ nearest.le unknown known)
    rw [suggestion?_eq nearest, if_neg (by omega)]

end Warning
end StackSynth
