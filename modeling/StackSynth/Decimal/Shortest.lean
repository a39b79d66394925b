import StackSynth.Decimal.Binary64

/-!
# Shortest — the fewest decimal digits that read back

The doubles around a finite double leave it an interval of reals that round to it; the ends
belong to the interval exactly when the significand is even.  For one digit, two digits, and so
on, the two neighbours of the double on that decimal grid are tested, and the first grid with a
hit wins.  Of two hits the nearer one is taken, on a tie the even one.
-/

namespace StackSynth
namespace Shortest

/-- A positive decimal number `digits * 10 ^ scale`. -/
structure Decimal where
  digits : Nat
  scale : Int
  deriving DecidableEq

/-- An interval of reals, as numerators over one denominator. -/
structure Interval where
  low : Nat
  high : Nat
  den : Nat
  closed : Bool

/-- The reals that round to `significand * 2 ^ exponent`, in quarters of the last place. -/
def roundingInterval (significand : Nat) (exponent : Int) : Interval :=
  let unit := Binary64.ratio 1 exponent
  let below := if significand = Nat.pow 2 52 ∧ Binary64.minExponent < exponent then 1 else 2
  { low := (4 * significand - below) * unit.1
    high := (4 * significand + 2) * unit.1
    den := 4 * unit.2
    closed := significand % 2 = 0 }

/-- The decimal as a fraction. -/
def Decimal.ratio (d : Decimal) : Nat × Nat :=
  if d.scale < 0 then (d.digits, Nat.pow 10 d.scale.natAbs)
  else (d.digits * Nat.pow 10 d.scale.natAbs, 1)

def Interval.holds (i : Interval) (d : Decimal) : Bool :=
  let x := d.ratio
  let left := i.low * x.2
  let middle := x.1 * i.den
  let right := i.high * x.2
  if i.closed then left ≤ middle && middle ≤ right else left < middle && middle < right

/-- The count of decimal digits; none for zero. -/
def digitCount (n : Nat) : Nat :=
  if n = 0 then 0 else (Nat.toDigits 10 n).length

/-- The place of the first decimal digit of `num / den`: the greatest `e` with
`10 ^ e ≤ num / den`. -/
def firstPlace (num den : Nat) : Int :=
  if den ≤ num then (digitCount (num / den) : Int) - 1
  else - (digitCount ((den - 1) / num) : Int)

/-- The part of `num / den` on the grid of multiples of `10 ^ scale`, rounded down. -/
def gridFloor (num den : Nat) (scale : Int) : Nat :=
  if scale < 0 then num * Nat.pow 10 scale.natAbs / den
  else num / (den * Nat.pow 10 scale.natAbs)

/-- Twice the point between the two neighbours is compared with twice the value. -/
def nearerIsLower (num den : Nat) (lower : Decimal) : Bool :=
  let middle : Decimal := ⟨2 * lower.digits + 1, lower.scale⟩
  let x := middle.ratio
  let value := 2 * num * x.2
  let between := x.1 * den
  value < between || (value == between && lower.digits % 2 == 0)

/-- The better neighbour of `num / den` on one grid, if one lies in the interval. -/
def onGrid? (i : Interval) (num den : Nat) (scale : Int) : Option Decimal :=
  let lower : Decimal := ⟨gridFloor num den scale, scale⟩
  let upper : Decimal := ⟨lower.digits + 1, scale⟩
  match lower.digits != 0 && i.holds lower, i.holds upper with
  | true, true => some (if nearerIsLower num den lower then lower else upper)
  | true, false => some lower
  | false, true => some upper
  | false, false => none

/-- The first of the grids, coarse to fine, that has a hit. -/
def search (i : Interval) (num den : Nat) (top : Int) : (count digit : Nat) → Decimal
  | 0, digit => ⟨gridFloor num den (top - digit), top - digit⟩
  | count + 1, digit =>
      match onGrid? i num den (top - digit) with
      | some d => d
      | none => search i num den top count (digit + 1)

/-- The fewest digits for `significand * 2 ^ exponent`, which is not zero. -/
def shortest (significand : Nat) (exponent : Int) : Decimal :=
  let x := Binary64.ratio significand exponent
  search (roundingInterval significand exponent) x.1 x.2 (firstPlace x.1 x.2) 17 0

end Shortest
end StackSynth
