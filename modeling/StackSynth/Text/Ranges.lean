import StackSynth.Text

/-!
# Ranges — sets of characters by their numbers

A property of characters is a list of ranges of their numbers, both ends of a range included.
`Text.Ranges.holds_iff` states it without the search.
-/

namespace StackSynth
namespace Text

abbrev Ranges := List (Nat × Nat)

namespace Ranges

def holds (ranges : Ranges) (c : Char) : Bool :=
  ranges.any fun range => range.1 ≤ c.toNat && c.toNat ≤ range.2

theorem holds_iff {ranges : Ranges} {c : Char} :
    ranges.holds c = true ↔ ∃ range ∈ ranges, range.1 ≤ c.toNat ∧ c.toNat ≤ range.2 := by
  simp [holds]

end Ranges
end Text
end StackSynth
