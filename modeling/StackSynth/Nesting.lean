/-!
# Nesting — how deep an expression is nested

An expression is a tree, and its depth is the count of nodes with parts on the longest way down.
Expressions deeper than `Nesting.limit` are refused wherever they are read.

* `Nesting.joined` — the depth of parts that stand side by side;
* `Nesting.le_joined` — it is no less than the depth of any part.
-/

namespace StackSynth
namespace Nesting

/-- No expression nests deeper. -/
def limit : Nat := 250

def deepest (depths : List Nat) : Nat :=
  depths.foldr max 0

/-- A part that stands alone needs no node around it. -/
def joined : List Nat → Nat
  | [] => 0
  | [depth] => depth
  | depths => deepest depths + 1

theorem le_deepest {depth : Nat} {depths : List Nat} (h : depth ∈ depths) :
    depth ≤ deepest depths := by
  induction depths with
  | nil => cases h
  | cons first rest ih =>
    simp only [deepest, List.foldr_cons]
    cases h with
    | head => exact Nat.le_max_left _ _
    | tail _ inside => exact Nat.le_trans (ih inside) (Nat.le_max_right _ _)

theorem le_joined {depth : Nat} {depths : List Nat} (h : depth ∈ depths) :
    depth ≤ joined depths := by
  match depths with
  | [] => cases h
  | [only] => simp_all [joined]
  | first :: second :: rest => exact Nat.le_succ_of_le (le_deepest h)

end Nesting
end StackSynth
