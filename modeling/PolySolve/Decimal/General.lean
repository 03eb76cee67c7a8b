import PolySolve.Decimal.Rounded

/-!
# The general form of a number

A number in its shortest digits: written out if its first digit stands at the sixteenth place
before the point or lower and at the fourth place after it or higher, else with an exponent.
`generalChars` always has a point or an exponent, `plainChars` writes whole numbers out in full.
-/

namespace PolySolve.Decimal

open Binary64

/-- Digits with the decimal point after the first `point` of them, and a digit on both sides. -/
def writtenOut (ds : List Char) (point : Int) : List Char :=
  if point ≤ 0 then '0' :: '.' :: (zeros (-point).toNat ++ ds)
  else if ds.length ≤ point.toNat then ds ++ zeros (point.toNat - ds.length) ++ ['.', '0']
  else ds.take point.toNat ++ '.' :: ds.drop point.toNat

/-- The first digit, the others after a point, and an exponent. -/
def withExponent (ds : List Char) (point : Int) : List Char :=
  match ds with
  | [] => []
  | [d] => d :: 'e' :: exponentChars (point - 1)
  | d :: rest => d :: '.' :: (rest ++ 'e' :: exponentChars (point - 1))

/-- The shortest digits of a magnitude of `n` units. -/
def magnitudeChars (n : Nat) : List Char :=
  if n = 0 then "0.0".toList
  else
    let d := shortest n
    let ds := digitChars d.digits
    let point := ds.length + d.exponent
    if -4 < point ∧ point ≤ 16 then writtenOut ds point else withExponent ds point

/-- A value in its shortest digits, with a point or an exponent. -/
def generalChars : Binary64 → List Char
  | .nan => nanChars
  | .infinite s => infinityChars s
  | .finite s n _ _ => if s then '-' :: magnitudeChars n else magnitudeChars n

/-- A whole number without a point, anything else in the general form; zero has no sign. -/
def plainChars (x : Binary64) : List Char :=
  let y := x.unsignedZero
  match y.toInt? with
  | some n => intChars n
  | none => generalChars y

end PolySolve.Decimal
