import PolySolve.Decimal.Basic
import PolySolve.Text.Blank
import PolySolve.Text.DecimalDigit

/-!
# Reading numbers

The binary64 value of a number written by a person: blanks around it, an optional sign, digits of
any script with an optional point among or beside them and an optional exponent, single
underscores between digits, or the words `inf`, `infinity` and `nan` in any case.
-/

namespace PolySolve.Decimal

open Binary64 Text

/-- The value of `whole.fraction` times `10 ^ exponent`. -/
def ofDigits (whole fraction : List Char) (exponent : Int) : Decimal :=
  ⟨digitsValue (whole ++ fraction), exponent - fraction.length⟩

/-- The digits after a point, if there is one, and what follows them. -/
def splitFraction : List Char → List Char × List Char
  | '.' :: r => (r.takeWhile isDigit, r.dropWhile isDigit)
  | r => ([], r)

/-- An exponent with an optional sign, and nothing else; without one it is 0. -/
def exponent? : List Char → Option Int
  | [] => some 0
  | e :: r =>
    if e = 'e' ∨ e = 'E' then
      let (negative, ds) := match r with
        | '-' :: ds => (true, ds)
        | '+' :: ds => (false, ds)
        | ds => (false, ds)
      if ds ≠ [] ∧ ds.all isDigit then
        let n : Int := digitsValue ds
        some (if negative then -n else n)
      else none
    else none

/-- A number of digits, an optional point and digits, an optional exponent, and nothing else. -/
def unsigned? (cs : List Char) : Option Decimal :=
  let whole := cs.takeWhile isDigit
  let (fraction, rest) := splitFraction (cs.dropWhile isDigit)
  if whole = [] ∧ fraction = [] then none else (exponent? rest).map (ofDigits whole fraction)

/-- The text without its underscores, if each stands between two digits. -/
def dropUnderscores? : List Char → Option (List Char)
  | [] => some []
  | '_' :: _ => none
  | c :: '_' :: d :: rest =>
    if isDigit c && isDigit d then (dropUnderscores? (d :: rest)).map (c :: ·) else none
  | c :: rest => (dropUnderscores? rest).map (c :: ·)

def word? (cs : List Char) (negative : Bool) : Option Binary64 :=
  let w := String.ofList (cs.map Char.toLower)
  if w = "inf" ∨ w = "infinity" then some (.infinite negative)
  else if w = "nan" then some .nan
  else none

/-- The value of a number with an optional sign. -/
def signed? (cs : List Char) : Option Binary64 :=
  let (negative, body) := match cs with
    | '-' :: r => (true, r)
    | '+' :: r => (false, r)
    | r => (false, r)
  match (dropUnderscores? body).bind unsigned? with
  | some d => some (d.toBinary64 negative)
  | none => word? body negative

/-- A blank that may stand around a number: any but the separators of records. -/
def isMargin (c : Char) : Bool := isBlank c && !(0x1C ≤ c.toNat && c.toNat ≤ 0x1F)

/-- The value of a written number. -/
def value? (cs : List Char) : Option Binary64 :=
  signed? ((cs.dropWhile isMargin).reverse.dropWhile isMargin).reverse

end PolySolve.Decimal
