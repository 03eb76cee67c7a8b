import PolySolve.Binary64.Grid

/-!
# Binary64 numbers

Values and arithmetic of the binary64 format. A finite value is a sign and a magnitude on the
grid, so each operation is an exact computation on natural numbers followed by one rounding,
to nearest and ties to even. There is one nan, without a sign.

* `round_of_onGrid`: a magnitude on the grid is not changed by rounding;
* `neg_neg`, `abs_neg`: signs are kept apart from magnitudes.
-/

namespace PolySolve

open Binary64 (OnGrid)

/-- One is `2 ^ unitPlaces` units. -/
def Binary64.unitPlaces : Nat := 1074

/-- The magnitude of one, in units. -/
def Binary64.unitsPerOne : Nat := twoPow unitPlaces

/-- Finite values are less than `2 ^ exponentLimit`. -/
def Binary64.exponentLimit : Nat := 1024

/-- The least magnitude in units that is too large for a finite value. -/
def Binary64.overflowUnits : Nat := twoPow (unitPlaces + exponentLimit)

/-- A binary64 value; a finite one has a magnitude of `units` times `2⁻¹⁰⁷⁴`. -/
inductive Binary64 where
  | finite (negative : Bool) (units : Nat) (onGrid : OnGrid units)
      (bounded : units < Binary64.overflowUnits)
  | infinite (negative : Bool)
  | nan
  deriving DecidableEq

namespace Binary64

theorem unitsPerOne_pos : 0 < unitsPerOne := twoPow_pos _

theorem overflowUnits_pos : 0 < overflowUnits := twoPow_pos _

/-- The value of a magnitude on the grid; from `2¹⁰²⁴` on it is infinite. -/
def ofUnits (negative : Bool) (n : Nat) (h : OnGrid n) : Binary64 :=
  if b : n < overflowUnits then finite negative n h b else infinite negative

/-- The value nearest to `num / den` units. -/
def round (negative : Bool) (num den : Nat) : Binary64 :=
  ofUnits negative (roundQuotient num den) (onGrid_roundQuotient num den)

/-- The value nearest to the square root of `n` squared units. -/
def roundSqrt (n : Nat) : Binary64 := ofUnits false (roundRoot n) (onGrid_roundRoot n)

theorem round_of_onGrid {n : Nat} (h : OnGrid n) (negative : Bool) {den : Nat} (hd : 0 < den) :
    round negative (n * den) den = ofUnits negative n h := by
  simp only [round, roundQuotient_of_onGrid h hd]

def zero : Binary64 := finite false 0 onGrid_zero overflowUnits_pos

def ofNat (n : Nat) : Binary64 := round false (n * unitsPerOne) 1

def ofInt (n : Int) : Binary64 := round (n < 0) (n.natAbs * unitsPerOne) 1

instance (n : Nat) : OfNat Binary64 n := ⟨ofNat n⟩

instance : Inhabited Binary64 := ⟨zero⟩

/-! ## Classes of values -/

def isFinite : Binary64 → Bool
  | finite .. => true
  | _ => false

/-- Either zero. -/
def isZero : Binary64 → Bool
  | finite _ n _ _ => n == 0
  | _ => false

/-- The sign is minus; nan has none. -/
def isNegative : Binary64 → Bool
  | finite s _ _ _ => s
  | infinite s => s
  | nan => false

/-- A finite value in units, with its sign. -/
def toUnits? : Binary64 → Option Int
  | finite s n _ _ => some ((if s then -1 else 1) * n)
  | _ => none

/-- The value of a finite whole number. -/
def toInt? : Binary64 → Option Int
  | finite s n _ _ =>
    if unitsPerOne ∣ n then some ((if s then -1 else 1) * (n / unitsPerOne : Nat)) else none
  | _ => none

/-! ## Order -/

/-- Less than; the two zeros are equal and nothing compares with nan. -/
def lt : Binary64 → Binary64 → Bool
  | nan, _ => false
  | _, nan => false
  | infinite s, infinite t => s && !t
  | infinite s, finite .. => s
  | finite .., infinite t => !t
  | finite s m _ _, finite t n _ _ =>
    decide (((if s then -1 else 1) * m : Int) < (if t then -1 else 1) * n)

instance : LT Binary64 := ⟨fun x y => x.lt y = true⟩

instance (x y : Binary64) : Decidable (x < y) := inferInstanceAs (Decidable (_ = true))

/-- Numeric equality; the two zeros are equal and nan differs from itself. -/
def numEq : Binary64 → Binary64 → Bool
  | infinite s, infinite t => s == t
  | finite s m _ _, finite t n _ _ => m == n && (s == t || m == 0)
  | _, _ => false

/-- Less than or equal to. -/
def le (x y : Binary64) : Bool := x.lt y || x.numEq y

instance : LE Binary64 := ⟨fun x y => x.le y = true⟩

instance (x y : Binary64) : Decidable (x ≤ y) := inferInstanceAs (Decidable (_ = true))

/-! ## Arithmetic -/

def neg : Binary64 → Binary64
  | finite s n h b => finite (!s) n h b
  | infinite s => infinite (!s)
  | nan => nan

def abs : Binary64 → Binary64
  | finite _ n h b => finite false n h b
  | infinite _ => infinite false
  | nan => nan

/-- The sum; opposite finite values add up to plus zero. -/
def add : Binary64 → Binary64 → Binary64
  | nan, _ => nan
  | _, nan => nan
  | infinite s, infinite t => if s = t then infinite s else nan
  | infinite s, finite .. => infinite s
  | finite .., infinite t => infinite t
  | finite s m _ _, finite t n _ _ =>
    if s = t then round s (m + n) 1
    else if m = n then zero
    else if n < m then round s (m - n) 1
    else round t (n - m) 1

def mul : Binary64 → Binary64 → Binary64
  | nan, _ => nan
  | _, nan => nan
  | infinite s, infinite t => infinite (s != t)
  | infinite s, finite t n _ _ => if n = 0 then nan else infinite (s != t)
  | finite s m _ _, infinite t => if m = 0 then nan else infinite (s != t)
  | finite s m _ _, finite t n _ _ => round (s != t) (m * n) unitsPerOne

/-- The quotient; a zero divisor gives an infinity, or nan for a zero dividend. -/
def div : Binary64 → Binary64 → Binary64
  | nan, _ => nan
  | _, nan => nan
  | infinite _, infinite _ => nan
  | infinite s, finite t .. => infinite (s != t)
  | finite s .., infinite t => finite (s != t) 0 onGrid_zero overflowUnits_pos
  | finite s m _ _, finite t n _ _ =>
    if n = 0 then (if m = 0 then nan else infinite (s != t))
    else round (s != t) (m * unitsPerOne) n

/-- The square root; of a value below zero it is nan. -/
def sqrt : Binary64 → Binary64
  | finite s n h b =>
    if n = 0 then finite s n h b else if s then nan else roundSqrt (n * unitsPerOne)
  | infinite false => infinite false
  | _ => nan

instance : Neg Binary64 := ⟨neg⟩
instance : Add Binary64 := ⟨add⟩
instance : Sub Binary64 := ⟨fun x y => x + -y⟩
instance : Mul Binary64 := ⟨mul⟩
instance : Div Binary64 := ⟨div⟩

/-- The value with plus zero in place of minus zero. -/
def unsignedZero (x : Binary64) : Binary64 := x + zero

theorem neg_neg (x : Binary64) : - -x = x := by
  cases x <;> simp [Neg.neg, neg]

theorem abs_neg (x : Binary64) : (-x).abs = x.abs := by
  cases x <;> rfl

end Binary64

end PolySolve
