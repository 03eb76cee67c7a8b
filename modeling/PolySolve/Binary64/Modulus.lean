import PolySolve.Binary64.Basic

/-!
# Moduli

The modulus of a complex number: the rounded square root of the sum of squares, corrected once by
the error of its square. Parts so large or so small that their squares would leave the range of
finite values are scaled by a power of two, and a part that is lost beside the other one is added
instead.

* `hypot_infinite`: with an infinite part the modulus is infinite, whatever the other part is.
-/

namespace PolySolve.Binary64

/-- The power of two with `k` for exponent and `unitPlaces` places below the point. -/
def ofTwoPow (k : Nat) : Binary64 := round false (twoPow k) 1

/-- Above `2⁵¹¹` squares may be infinite. -/
def largePart : Binary64 := ofTwoPow (unitPlaces + 511)

/-- Below `2⁻⁴⁵⁹` squares may be lost. -/
def smallPart : Binary64 := ofTwoPow (unitPlaces - 459)

/-- Beside one, `2⁻⁵⁴` is lost. -/
def lostPart : Binary64 := ofTwoPow (unitPlaces - 54)

def modulusScale : Binary64 := ofTwoPow (unitPlaces - 600)

/-- The modulus of parts with squares in range, of which `a` is not the less. The error of the
square is found from the distance `d` to one of the parts, the greater one unless the parts are
close to each other. -/
def correctedModulus (a b : Binary64) : Binary64 :=
  let h := (a * a + b * b).sqrt
  let error :=
    if h ≤ 2 * b then
      let d := h - b
      a * (2 * d - a) + (d - 2 * (a - b)) * d
    else
      let d := h - a
      2 * d * (a - 2 * b) + ((4 * d - b) * b + d * d)
  h - error / (2 * h)

/-- The modulus of finite parts that are not negative, of which `a` is not the less. -/
def orderedModulus (a b : Binary64) : Binary64 :=
  if b / lostPart ≤ a then a + b
  else if largePart < a then
    correctedModulus (a * modulusScale) (b * modulusScale) / modulusScale
  else if b < smallPart then
    correctedModulus (a / modulusScale) (b / modulusScale) * modulusScale
  else correctedModulus a b

/-- The modulus of a complex number. -/
def hypot : Binary64 → Binary64 → Binary64
  | infinite _, _ => infinite false
  | _, infinite _ => infinite false
  | x, y =>
    if x.abs < y.abs then orderedModulus y.abs x.abs else orderedModulus x.abs y.abs

theorem hypot_infinite (s : Bool) (x : Binary64) :
    hypot (infinite s) x = infinite false ∧ hypot x (infinite s) = infinite false := by
  cases x <;> exact ⟨rfl, rfl⟩

end PolySolve.Binary64
