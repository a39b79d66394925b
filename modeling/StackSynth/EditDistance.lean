/-!
# EditDistance — how far one word is from another

The distance counts insertions, deletions and replacements of single letters.  It is computed row
by row: row `i` holds the distances of the first `i` letters of one word from every beginning of
the other, and a row is found from the one above it.
-/

namespace StackSynth
namespace EditDistance

variable {α : Type} [BEq α]

/-- The rest of a row: `corner` stands above and to the left, `left` to the left, and the list
holds what stands above. -/
def rowFrom (a : α) : (corner left : Nat) → List α → List Nat → List Nat
  | corner, left, b :: bs, above :: rest =>
      let here := min (min (above + 1) (left + 1)) (corner + if a == b then 0 else 1)
      here :: rowFrom a above here bs rest
  | _, _, _, _ => []

/-- The row below another one. -/
def nextRow (a : α) (bs : List α) : List Nat → List Nat
  | [] => []
  | corner :: rest => (corner + 1) :: rowFrom a corner (corner + 1) bs rest

/-- The last row. -/
def lastRow (bs : List α) : List Nat → List α → List Nat
  | row, [] => row
  | row, a :: as => lastRow bs (nextRow a bs row) as

def distance (as bs : List α) : Nat :=
  (lastRow bs (List.range (bs.length + 1)) as).getLastD 0

end EditDistance
end StackSynth
