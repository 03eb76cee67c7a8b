import PolySolve.Decimal.Basic

/-!
# The shortest decimal of a binary64 value

The decimal number with the fewest digits among those whose nearest binary64 value is the given
one, and of several such numbers the nearest to it. A number of `k` digits is sought on the grid
of the `k`-digit decimals around the value: of the value's two neighbours there the nearer one is
tried first.
-/

namespace PolySolve.Decimal

open Binary64

/-- How often `n` units, less than one tenth, must be multiplied by ten to reach one tenth. -/
def leadingZeros : Nat → Nat → Nat
  | 0, _ => 0
  | k + 1, n => if unitsPerOne ≤ 10 * n then 0 else leadingZeros k (10 * n) + 1

/-- Where the decimal point stands: `10 ^ (p - 1) ≤ v < 10 ^ p` for a value `v` of `n` units. -/
def pointPosition (n : Nat) : Int :=
  if unitsPerOne ≤ n then (digitChars (n / unitsPerOne)).length else -(leadingZeros 324 n : Int)

/-- A magnitude of `n` units is `scaledNum n e / scaledDen e` times `10 ^ e`. -/
def scaledNum (n : Nat) (e : Int) : Nat := n * tenPow (-e).toNat

def scaledDen (e : Int) : Nat := unitsPerOne * tenPow e.toNat

/-- The decimal reads back as a magnitude of `n` units. -/
def readsBack (d : Decimal) (n : Nat) : Bool := roundQuotient d.unitsNum d.unitsDen == n

/-- The multiple of `10 ^ e` that reads back as `n` units, if one of the two neighbours does. -/
def onDecimalGrid (n : Nat) (e : Int) : Option Decimal :=
  let below := scaledNum n e / scaledDen e
  let nearer := roundDiv (scaledNum n e) (scaledDen e)
  let other := if nearer = below then below + 1 else below
  if readsBack ⟨nearer, e⟩ n then some ⟨nearer, e⟩
  else if readsBack ⟨other, e⟩ n then some ⟨other, e⟩
  else none

/-- The first decimal that reads back, trying `k`, `k + 1`, … digits and in the end 17. -/
def shortestFrom (n : Nat) (point : Int) : Nat → Nat → Decimal
  | 0, _ => ⟨roundDiv (scaledNum n (point - 17)) (scaledDen (point - 17)), point - 17⟩
  | left + 1, k => (onDecimalGrid n (point - k)).getD (shortestFrom n point left (k + 1))

/-- The same number with one trailing zero less. -/
def dropZero (d : Decimal) : Decimal :=
  if d.digits % 10 = 0 then ⟨d.digits / 10, d.exponent + 1⟩ else d

/-- The shortest decimal of a magnitude of `n` units, `n` not zero. -/
def shortest (n : Nat) : Decimal := dropZero (shortestFrom n (pointPosition n) 17 1)

end PolySolve.Decimal
