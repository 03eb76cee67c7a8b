import PolySolve.Decimal.Shortest
import PolySolve.Text.Quoted

/-!
# Decimals with a given number of places

The exact value of a binary64 number is rounded once, ties to even: to a number of fractional
places (`fixedChars`), or to a number of digits with an exponent (`scientificChars`).

The number of places is one of a format, which has its own bounds (`checkPlaces`), and a text with
places is read back to find out whether it is a zero, which bounds its digits (`isReadBack`). Where
one of the two fails there is no text (`fixedText?`).

* `checkPlaces_of_le`: up to a limit all numbers of places are those of a format.
-/

namespace PolySolve.Decimal

open Binary64 Text

/-- The nearest multiple of `10 ^ -places`, counted in such multiples. -/
def fixedCount (places n : Nat) : Nat := roundDiv (n * tenPow places) unitsPerOne

/-- A count of multiples of `10 ^ -places`, written with a point before the last `places` digits. -/
def pointed (places count : Nat) : List Char :=
  let ds := paddedDigits (places + 1) count
  let whole := ds.take (ds.length - places)
  if places = 0 then whole else whole ++ '.' :: ds.drop (ds.length - places)

/-- The texts of the values that have no digits. -/
def infinityChars (negative : Bool) : List Char := if negative then "-inf".toList else "inf".toList

def nanChars : List Char := "nan".toList

/-- A value with exactly `places` fractional digits; what rounds to zero has no sign. -/
def fixedChars (places : Nat) : Binary64 → List Char
  | .nan => nanChars
  | .infinite s => infinityChars s
  | .finite s n _ _ =>
    let count := fixedCount places n
    if s && count != 0 then '-' :: pointed places count else pointed places count

/-- A value with `places` fractional digits and its sign, also if it is rounded to zero. -/
def signedFixedChars (places : Nat) : Binary64 → List Char
  | .nan => nanChars
  | .infinite s => infinityChars s
  | .finite s n _ _ => (if s then ['-'] else []) ++ pointed places (fixedCount places n)

/-- Why a value is not written with a number of places. -/
inductive PlacesFault where
  | negative
  | tooMany
  /-- The number of places is not even read. -/
  | unreadable
  /-- The text has more digits than are read back. -/
  | tooLong (text : List Char)
  deriving DecidableEq

namespace PlacesFault

def message : PlacesFault → List Char
  | negative => "Format specifier missing precision".toList
  | tooMany => "precision too big".toList
  | unreadable => "Too many decimal digits in format string".toList
  | tooLong text => "could not convert string to float: ".toList ++ quote text

end PlacesFault

/-- The greatest number of places of a format. -/
def maxPlaces : Nat := 2147483647

/-- The greatest number of places that is read in a format. -/
def maxPlacesRead : Nat := 9223372036854775807

/-- A number of places that a format can have. -/
def checkPlaces : Int → Except PlacesFault Nat
  | .negSucc _ => .error .negative
  | .ofNat n =>
    if maxPlacesRead < n then .error .unreadable
    else if maxPlaces < n then .error .tooMany
    else .ok n

theorem checkPlaces_of_le {n : Nat} (h : n ≤ maxPlaces) : checkPlaces n = .ok n := by
  have hr : ¬ maxPlacesRead < n := by
    have : maxPlaces ≤ maxPlacesRead := by decide
    omega
  show (if maxPlacesRead < n then _ else _) = _
  rw [if_neg hr, if_neg (Nat.not_lt.2 h)]

/-- How many digits of a text are read at most, those after the point and those from the first one
on that is not zero. -/
def maxDigitsRead : Nat := 1000000000

/-- A text is read if it has no more digits than that. -/
def isReadBack (cs : List Char) : Bool :=
  let fraction := (cs.dropWhile (· != '.')).drop 1
  let digits := (cs.filter Char.isDigit).dropWhile (· == '0')
  fraction.length ≤ maxDigitsRead && digits.length ≤ maxDigitsRead

/-- A value with a number of places, unless a format cannot have it or the text cannot be read
back. -/
def fixedText? (places : Int) (x : Binary64) : Except PlacesFault (List Char) := do
  let places ← checkPlaces places
  let text := signedFixedChars places x
  if isReadBack text then return fixedChars places x else throw (.tooLong text)

/-! ## With an exponent -/

/-- A sign and at least two digits. -/
def exponentChars (e : Int) : List Char :=
  (if e < 0 then '-' else '+') :: paddedDigits 2 e.natAbs

/-- The `places + 1` leading digits of a magnitude, rounded, and the exponent of the first one. -/
def leadingDigits (places n : Nat) : Nat × Int :=
  if n = 0 then (0, 0)
  else
    let e := pointPosition n - 1
    let ds := roundDiv (scaledNum n (e - places)) (scaledDen (e - places))
    if ds < tenPow (places + 1) then (ds, e) else (tenPow places, e + 1)

/-- One digit, `places` fractional digits and an exponent, as in `-1.250e-07`. -/
def scientificChars (places : Nat) : Binary64 → List Char
  | .nan => nanChars
  | .infinite s => infinityChars s
  | .finite s n _ _ =>
    let (ds, e) := leadingDigits places n
    let body := pointed places ds ++ 'e' :: exponentChars e
    if s then '-' :: body else body

end PolySolve.Decimal
