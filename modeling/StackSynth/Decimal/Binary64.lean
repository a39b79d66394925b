/-!
# Binary64 — double-precision numbers in exact arithmetic

A finite double is `± significand * 2 ^ exponent`.  Every operation computes the exact rational
result over `Nat` and rounds it once, to the nearest double and on a tie to the even
significand.

* `Binary64.ofRatio` — the double nearest to a fraction;
* `Binary64.mul`, `Binary64.div` — one rounding each;
* `Binary64.ofDecimal` — the double nearest to `digits * 10 ^ scale`.
-/

namespace StackSynth

inductive Binary64 where
  | finite (negative : Bool) (significand : Nat) (exponent : Int)
  | infinite (negative : Bool)
  | nan
  deriving DecidableEq, Inhabited

namespace Binary64

/-- The exponent of the smallest doubles. -/
def minExponent : Int := -1074

/-- The exponent of the largest finite doubles. -/
def maxExponent : Int := 971

def zero (negative : Bool) : Binary64 :=
  .finite negative 0 minExponent

def isFinite : Binary64 → Bool
  | .finite .. => true
  | _ => false

def negate : Binary64 → Binary64
  | .finite negative m e => .finite (!negative) m e
  | .infinite negative => .infinite (!negative)
  | .nan => .nan

/-! ## Rounding -/

/-- The fraction `num / den` measured in units of `2 ^ e`. -/
def scaled (num den : Nat) (e : Int) : Nat × Nat :=
  if e < 0 then (num * Nat.pow 2 e.natAbs, den) else (num, den * Nat.pow 2 e.natAbs)

/-- The natural number nearest to `num / den`, on a tie the even one. -/
def nearest (num den : Nat) : Nat :=
  let q := num / den
  let r := num % den
  if 2 * r < den then q
  else if den < 2 * r then q + 1
  else if q % 2 = 0 then q
  else q + 1

/-- The exponent at which `num / den` has 53 binary digits before the point, or the least
exponent if it has fewer. -/
def exponentFor (num den : Nat) : Int :=
  let guess := max ((num.log2 : Int) - den.log2 - 53) minExponent
  let units := scaled num den guess
  if Nat.pow 2 53 ≤ units.1 / units.2 then guess + 1 else guess

/-- The double nearest to `num / den`. -/
def ofRatio (negative : Bool) (num den : Nat) : Binary64 :=
  if num = 0 then zero negative
  else
    let e := exponentFor num den
    let units := scaled num den e
    let m := nearest units.1 units.2
    let carried : Nat × Int := if m = Nat.pow 2 53 then (Nat.pow 2 52, e + 1) else (m, e)
    if maxExponent < carried.2 then .infinite negative
    else .finite negative carried.1 carried.2

/-! ## Arithmetic -/

/-- The magnitude `significand * 2 ^ exponent` as a fraction. -/
def ratio (significand : Nat) (exponent : Int) : Nat × Nat :=
  if exponent < 0 then (significand, Nat.pow 2 exponent.natAbs)
  else (significand * Nat.pow 2 exponent.natAbs, 1)

def ofNat (n : Nat) : Binary64 :=
  ofRatio false n 1

/-- A product of finite doubles; anything else gives no number. -/
def mul : Binary64 → Binary64 → Binary64
  | .finite s m e, .finite t n f =>
      let x := ratio m e
      let y := ratio n f
      ofRatio (s != t) (x.1 * y.1) (x.2 * y.2)
  | _, _ => .nan

/-- A quotient of finite doubles with a divisor that is not zero; anything else gives no
number. -/
def div : Binary64 → Binary64 → Binary64
  | .finite s m e, .finite t n f =>
      if n = 0 then .nan
      else
        let x := ratio m e
        let y := ratio n f
        ofRatio (s != t) (x.1 * y.2) (x.2 * y.1)
  | _, _ => .nan

/-! ## Decimal notation -/

/-- The double nearest to `digits * 10 ^ scale`.  Scales far outside the range of doubles are
answered without computing the power. -/
def ofDecimal (negative : Bool) (digits : Nat) (scale : Int) : Binary64 :=
  if digits = 0 then zero negative
  else
    let magnitude := scale + (digits.log2 / 3 : Nat)
    if 400 < scale then .infinite negative
    else if magnitude < -800 then zero negative
    else if scale < 0 then ofRatio negative digits (Nat.pow 10 scale.natAbs)
    else ofRatio negative (digits * Nat.pow 10 scale.natAbs) 1

end Binary64
end StackSynth
