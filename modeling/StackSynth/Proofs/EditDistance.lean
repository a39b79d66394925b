import Mathlib
import StackSynth.EditDistance

/-!
# EditDistance — the least number of edits

An edit puts a letter in, takes one out or replaces one, at any place of a word.  Edits that follow
one another may undo each other, so that nothing can be said of a word by looking at its edits in
turn.  But the least of them come from an alignment, in which two words stand side by side and
every letter is dealt with once, and alignments come apart at their ends just as the rows of the
distance do.

* `Edit`, `Edits` — one edit, and a number of them one after another;
* `Aligned` — two words side by side, with what their differences cost;
* `Aligned.edits`, `Edits.aligned` — no edits do better than an alignment;
* `IsRow`, `nextRow_isRow`, `lastRow_isRow` — what a row holds, from one row to the next;
* `distance_isLeast` — the distance is the least number of edits.
-/

namespace StackSynth
namespace EditDistance

variable {α : Type} {as bs cs ds front back : List α} {k m n : Nat}

/-! ## Edits -/

/-- A letter is put in, taken out or replaced. -/
inductive Edit : List α → List α → Prop
  | insert (front back : List α) (a : α) : Edit (front ++ back) (front ++ a :: back)
  | delete (front back : List α) (a : α) : Edit (front ++ a :: back) (front ++ back)
  | replace (front back : List α) (a b : α) : Edit (front ++ a :: back) (front ++ b :: back)

/-- Edits one after another, and how many. -/
inductive Edits : Nat → List α → List α → Prop
  | none (as : List α) : Edits 0 as as
  | next {n : Nat} {as bs cs : List α} : Edits n as bs → Edit bs cs → Edits (n + 1) as cs

theorem Edit.cons (edit : Edit as bs) (a : α) : Edit (a :: as) (a :: bs) := by
  cases edit with
  | insert front back b => exact .insert (a :: front) back b
  | delete front back b => exact .delete (a :: front) back b
  | replace front back b c => exact .replace (a :: front) back b c

theorem Edits.cons (edits : Edits n as bs) (a : α) : Edits n (a :: as) (a :: bs) := by
  induction edits with
  | none as => exact .none (a :: as)
  | next _ edit ih => exact .next ih (edit.cons a)

/-! ## Alignments -/

/-- Two words side by side: letters of the first word that are missing in the second, letters that
only the second one has, and pairs of letters, which cost nothing if they are the same. -/
inductive Aligned : Nat → List α → List α → Prop
  | nil : Aligned 0 [] []
  | insert {n : Nat} {as bs : List α} (b : α) : Aligned n as bs → Aligned (n + 1) as (b :: bs)
  | delete {n : Nat} {as bs : List α} (a : α) : Aligned n as bs → Aligned (n + 1) (a :: as) bs
  | replace {n : Nat} {as bs : List α} (a b : α) : Aligned n as bs →
      Aligned (n + 1) (a :: as) (b :: bs)
  | keep {n : Nat} {as bs : List α} (a : α) : Aligned n as bs → Aligned n (a :: as) (a :: bs)

namespace Aligned

theorem refl (as : List α) : Aligned 0 as as := by
  induction as with
  | nil => exact .nil
  | cons a as ih => exact .keep a ih

/-- All letters are taken out. -/
theorem erase (as : List α) : Aligned as.length as [] := by
  induction as with
  | nil => exact .nil
  | cons a as ih => exact .delete a ih

/-- All letters are put in. -/
theorem fill (bs : List α) : Aligned bs.length [] bs := by
  induction bs with
  | nil => exact .nil
  | cons b bs ih => exact .insert b ih

theorem length_le (aligned : Aligned n as bs) :
    as.length ≤ n + bs.length ∧ bs.length ≤ n + as.length := by
  induction aligned with
  | nil => simp
  | insert _ _ ih | delete _ _ ih | replace _ _ _ ih | keep _ _ ih =>
      simp only [List.length_cons]
      omega

theorem append (one : Aligned m as bs) (other : Aligned n cs ds) :
    Aligned (m + n) (as ++ cs) (bs ++ ds) := by
  induction one with
  | nil => simpa using other
  | insert b _ ih =>
      rw [Nat.add_right_comm]
      exact ih.insert b
  | delete a _ ih =>
      rw [Nat.add_right_comm]
      exact ih.delete a
  | replace a b _ ih =>
      rw [Nat.add_right_comm]
      exact ih.replace a b
  | keep a _ ih => exact ih.keep a

/-- What a part of the second word is aligned with. -/
theorem split (aligned : Aligned n as (front ++ back)) :
    ∃ k l before after, Aligned k before front ∧ Aligned l after back
      ∧ n = k + l ∧ as = before ++ after := by
  generalize whole : front ++ back = bs at aligned
  induction aligned generalizing front with
  | nil =>
      obtain ⟨rfl, rfl⟩ := List.append_eq_nil_iff.mp whole
      exact ⟨0, 0, [], [], .nil, .nil, rfl, rfl⟩
  | @insert n as bs b aligned ih =>
      rcases List.append_eq_cons_iff.mp whole with ⟨rfl, rfl⟩ | ⟨front, rfl, rfl⟩
      · exact ⟨0, n + 1, [], as, .nil, aligned.insert b, by omega, rfl⟩
      · obtain ⟨k, l, before, after, inFront, behind, rfl, rfl⟩ := ih rfl
        exact ⟨k + 1, l, before, after, inFront.insert b, behind, by omega, rfl⟩
  | @delete n as bs a aligned ih =>
      obtain ⟨k, l, before, after, inFront, behind, rfl, rfl⟩ := ih whole
      exact ⟨k + 1, l, a :: before, after, inFront.delete a, behind, by omega, rfl⟩
  | @replace n as bs a b aligned ih =>
      rcases List.append_eq_cons_iff.mp whole with ⟨rfl, rfl⟩ | ⟨front, rfl, rfl⟩
      · exact ⟨0, n + 1, [], a :: as, .nil, aligned.replace a b, by omega, rfl⟩
      · obtain ⟨k, l, before, after, inFront, behind, rfl, rfl⟩ := ih rfl
        exact ⟨k + 1, l, a :: before, after, inFront.replace a b, behind, by omega, rfl⟩
  | @keep n as bs a aligned ih =>
      rcases List.append_eq_cons_iff.mp whole with ⟨rfl, rfl⟩ | ⟨front, rfl, rfl⟩
      · exact ⟨0, n, [], a :: as, .nil, aligned.keep a, by omega, rfl⟩
      · obtain ⟨k, l, before, after, inFront, behind, rfl, rfl⟩ := ih rfl
        exact ⟨k, l, a :: before, after, inFront.keep a, behind, rfl, rfl⟩

theorem reverse (aligned : Aligned n as bs) : Aligned n as.reverse bs.reverse := by
  induction aligned with
  | nil => exact .nil
  | insert b _ ih => simpa using ih.append (.insert b .nil)
  | delete a _ ih => simpa using ih.append (.delete a .nil)
  | replace a b _ ih => simpa using ih.append (.replace a b .nil)
  | keep a _ ih => simpa using ih.append (.keep a .nil)

/-- Each difference is an edit. -/
theorem edits (aligned : Aligned n as bs) : Edits n as bs := by
  induction aligned with
  | nil => exact .none []
  | @insert n as bs b _ ih => exact .next ih (.insert [] bs b)
  | @delete n as bs a _ ih => exact .next (ih.cons a) (.delete [] bs a)
  | @replace n as bs a b _ ih => exact .next (ih.cons a) (.replace [] bs a b)
  | keep a _ ih => exact ih.cons a

/-- What is aligned with one letter can be aligned with another one, or with nothing. -/
theorem exchange (a b : α) (aligned : Aligned n as [a]) :
    (∃ m ≤ n + 1, Aligned m as [b]) ∧ ∃ m ≤ n + 1, Aligned m as [] := by
  have short : as.length ≤ n + 1 := aligned.length_le.1
  refine ⟨?_, as.length, short, erase as⟩
  cases as with
  | nil => exact ⟨1, by omega, fill [b]⟩
  | cons c as => exact ⟨as.length + 1, short, (erase as).replace c b⟩

/-- One more edit costs at most one more difference. -/
theorem edit (aligned : Aligned n as bs) (edit : Edit bs cs) : ∃ m ≤ n + 1, Aligned m as cs := by
  cases edit with
  | insert front back a =>
      obtain ⟨k, l, before, after, inFront, behind, rfl, rfl⟩ := aligned.split
      exact ⟨k + (l + 1), by omega, inFront.append (behind.insert a)⟩
  | delete front back a =>
      obtain ⟨k, l, before, after, inFront, rest, rfl, rfl⟩ := aligned.split
      have parted : Aligned l after ([a] ++ back) := rest
      obtain ⟨i, j, letter, after, own, behind, rfl, rfl⟩ := parted.split
      obtain ⟨m, few, without⟩ := (own.exchange a a).2
      exact ⟨k + (m + j), by omega, inFront.append (without.append behind)⟩
  | replace front back a b =>
      obtain ⟨k, l, before, after, inFront, rest, rfl, rfl⟩ := aligned.split
      have parted : Aligned l after ([a] ++ back) := rest
      obtain ⟨i, j, letter, after, own, behind, rfl, rfl⟩ := parted.split
      obtain ⟨m, few, other⟩ := (own.exchange a b).1
      exact ⟨k + (m + j), by omega, inFront.append (other.append behind)⟩

end Aligned

/-- Edits that follow one another do no better than an alignment. -/
theorem Edits.aligned (edits : Edits n as bs) : ∃ m ≤ n, Aligned m as bs := by
  induction edits with
  | none as => exact ⟨0, le_rfl, .refl as⟩
  | next _ edit ih =>
      obtain ⟨m, few, aligned⟩ := ih
      obtain ⟨k, fewer, aligned⟩ := aligned.edit edit
      exact ⟨k, by omega, aligned⟩

/-! ## Rows -/

/-- The least cost of an alignment. -/
def IsDistance (as bs : List α) (n : Nat) : Prop :=
  IsLeast {k | Aligned k as bs} n

theorem isDistance_nil_left (bs : List α) : IsDistance [] bs bs.length :=
  ⟨.fill bs, fun _ aligned => by simpa using aligned.length_le.2⟩

theorem IsDistance.cons_nil (least : IsDistance as [] n) (a : α) :
    IsDistance (a :: as) [] (n + 1) := by
  refine ⟨least.1.delete a, fun k aligned => ?_⟩
  cases aligned with
  | delete _ aligned => exact Nat.succ_le_succ (least.2 aligned)

/-- The distances of a word from the beginnings of another: the one that is told backwards as
`done`, and those with more and more letters of `bs` behind it. -/
inductive IsRow (as : List α) : (done bs : List α) → List Nat → Prop
  | last {done : List α} {n : Nat} : IsDistance as done n → IsRow as done [] [n]
  | more {done bs : List α} {b : α} {n : Nat} {row : List Nat} : IsDistance as done n →
      IsRow as (b :: done) bs row → IsRow as done (b :: bs) (n :: row)

theorem isRow_nil (done bs : List α) :
    IsRow [] done bs (List.range' done.length (bs.length + 1)) := by
  induction bs generalizing done with
  | nil => exact .last (isDistance_nil_left done)
  | cons b bs ih => exact .more (isDistance_nil_left done) (ih (b :: done))

theorem IsRow.exists_cons {done : List α} {row : List Nat} (isRow : IsRow as done bs row) :
    ∃ n rest, row = n :: rest ∧ IsDistance as done n := by
  cases isRow with
  | last least => exact ⟨_, _, rfl, least⟩
  | more least _ => exact ⟨_, _, rfl, least⟩

/-- At the end of a row stands the distance from the whole word. -/
theorem IsRow.getLastD {done : List α} {row : List Nat} (isRow : IsRow as done bs row) (m : Nat) :
    IsDistance as (bs.reverse ++ done) (row.getLastD m) := by
  induction isRow generalizing m with
  | last least => exact least
  | @more done bs b n row _ _ ih =>
      rw [List.reverse_cons, List.append_assoc, List.singleton_append, List.getLastD_cons]
      exact ih n

/-! ## From row to row -/

variable [BEq α] [LawfulBEq α]

/-- The first letters of two words are aligned with each other, or one of them with nothing. -/
theorem isDistance_cons_cons {a b : α} {corner above left : Nat} (both : IsDistance as bs corner)
    (first : IsDistance as (b :: bs) above) (second : IsDistance (a :: as) bs left) :
    IsDistance (a :: as) (b :: bs)
      (min (min (above + 1) (left + 1)) (corner + if a == b then 0 else 1)) := by
  constructor
  · -- The least number is reached.
    rcases min_choice (min (above + 1) (left + 1)) (corner + if a == b then 0 else 1)
      with least | least
    · rw [least]
      rcases min_choice (above + 1) (left + 1) with least | least
      · rw [least]
        exact first.1.delete a
      · rw [least]
        exact second.1.insert b
    · rw [least]
      by_cases same : a = b
      · subst same
        simpa using both.1.keep a
      · simpa [same] using both.1.replace a b
  · intro k aligned
    -- Every alignment begins with one of the three edits or a letter that is kept.
    cases aligned with
    | insert _ aligned =>
        have := second.2 aligned
        omega
    | delete _ aligned =>
        have := first.2 aligned
        omega
    | replace _ _ aligned =>
        have := both.2 aligned
        split <;> omega
    | keep _ aligned =>
        have := both.2 aligned
        simp only [beq_self_eq_true, if_true]
        omega

/-- Along a row, the entry to the left is known when the next one is found. -/
theorem rowFrom_isRow {done : List α} {a : α} {corner left : Nat} {rest : List Nat}
    (above : IsRow as done bs (corner :: rest)) (known : IsDistance (a :: as) done left) :
    IsRow (a :: as) done bs (left :: rowFrom a corner left bs rest) := by
  induction bs generalizing done corner left rest with
  | nil =>
      rw [rowFrom]
      · exact .last known
      · simp
  | cons b bs ih =>
      cases above with
      | more both row =>
          obtain ⟨next, rest, rfl, first⟩ := row.exists_cons
          exact .more known (ih row (isDistance_cons_cons both first known))

theorem nextRow_isRow {row : List Nat} (isRow : IsRow as [] bs row) (a : α) :
    IsRow (a :: as) [] bs (nextRow a bs row) := by
  obtain ⟨corner, rest, rfl, least⟩ := isRow.exists_cons
  exact rowFrom_isRow isRow (least.cons_nil a)

/-- The rows are those of longer and longer beginnings, told backwards. -/
theorem lastRow_isRow {row : List Nat} (isRow : IsRow cs [] bs row) :
    IsRow (as.reverse ++ cs) [] bs (lastRow bs row as) := by
  induction as generalizing cs row with
  | nil => exact isRow
  | cons a as ih =>
      rw [List.reverse_cons, List.append_assoc, List.singleton_append]
      exact ih (nextRow_isRow isRow a)

/-! ## Distance -/

theorem distance_isDistance (as bs : List α) : IsDistance as.reverse bs.reverse (distance as bs) := by
  have start : IsRow [] [] bs (List.range (bs.length + 1)) := by
    rw [List.range_eq_range']
    exact isRow_nil [] bs
  have row : IsRow (as.reverse ++ []) [] bs (lastRow bs (List.range (bs.length + 1)) as) :=
    lastRow_isRow start
  have last := row.getLastD 0
  rwa [List.append_nil, List.append_nil] at last

/-- So many edits turn one word into the other, and no fewer do. -/
theorem distance_isLeast (as bs : List α) : IsLeast {n | Edits n as bs} (distance as bs) := by
  obtain ⟨aligned, least⟩ := distance_isDistance as bs
  constructor
  · simpa using aligned.reverse.edits
  · intro n edits
    obtain ⟨m, few, aligned⟩ := edits.aligned
    exact (least aligned.reverse).trans few

end EditDistance
end StackSynth
