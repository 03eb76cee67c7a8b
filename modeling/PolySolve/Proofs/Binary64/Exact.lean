import Mathlib.Algebra.BigOperators.Ring.List
import PolySolve.Proofs.Binary64.Order

/-!
# Results that are not rounded

The result of an operation is exact if it has at most 53 bits and is in range.
This holds for all partial sums of some values if these are whole multiples of
one power of two and their magnitudes together are less than `2 ^ 53` times this
power.

* `isFinite_add`, `isFinite_mul`, `isFinite_div`: results in range;
* `units_add_of_onGrid`, `units_mul_of_onGrid`, `units_div_of_onGrid`: one exact result;
* `AddsExactly`: values whose partial sums all are exact;
* `isZero_foldl_sub`: taken away from their sum, such values leave zero;
* `addsExactly_singleton`: a single value is always one of these.
-/

namespace PolySolve.Binary64

-- The elaborator must not evaluate these powers of two.
attribute [local irreducible] overflowUnits unitsPerOne

/-! ## One sum -/

theorem isZero_iff {x : Binary64} : x.isZero ↔ x.isFinite ∧ units x = 0 := by
  cases x with
  | nan => exact ⟨fun h => by contradiction, fun h => absurd h.1 Bool.false_ne_true⟩
  | infinite s => exact ⟨fun h => by contradiction, fun h => absurd h.1 Bool.false_ne_true⟩
  | finite s n hn b =>
    have hzero : (finite s n hn b).isZero ↔ n = 0 := beq_iff_eq
    have hunits : signedUnits s n = 0 ↔ n = 0 := by cases s <;> simp
    rw [hzero, units_finite, hunits]
    exact ⟨fun h => ⟨rfl, h⟩, fun h => h.2⟩

theorem natAbs_units_lt {x : Binary64} (h : x.isFinite) : (units x).natAbs < overflowUnits := by
  cases x with
  | nan => contradiction
  | infinite s => contradiction
  | finite s n hn b => cases s <;> simpa [units_finite] using b

theorem onGrid_units {x : Binary64} (h : x.isFinite) : OnGrid (units x).natAbs := by
  cases x with
  | nan => contradiction
  | infinite s => contradiction
  | finite s n hn b => cases s <;> simpa [units_finite] using hn

theorem roundQuotient_one {n : Nat} (h : OnGrid n) : roundQuotient n 1 = n := by
  simpa using roundQuotient_of_onGrid h Nat.one_pos

theorem nearestUnits_of_onGrid {n : Int} (h : OnGrid n.natAbs) : nearestUnits n 1 = n := by
  rw [nearestUnits, roundQuotient_one h, Int.sign_mul_natAbs]

/-- A sum of finite values is in range if the exact sum has a magnitude in range, rounded. -/
theorem isFinite_add {x y : Binary64} (hx : x.isFinite) (hy : y.isFinite)
    (h : roundQuotient (units x + units y).natAbs 1 < overflowUnits) : (x + y).isFinite := by
  cases x with
  | nan => contradiction
  | infinite => contradiction
  | finite s m hm bm =>
  cases y with
  | nan => contradiction
  | infinite => contradiction
  | finite t n hn bn =>
    have hadd : finite s m hm bm + finite t n hn bn =
        if s = t then round s (m + n) 1 else if m = n then zero
        else if n < m then round s (m - n) 1 else round t (n - m) 1 := rfl
    have rounded : ∀ {r k}, k = (signedUnits s m + signedUnits t n).natAbs →
        (round r k 1).isFinite := fun hk => by
      rw [round, isFinite_ofUnits_iff, hk]
      exact h
    rw [hadd]
    split
    · rename_i hst
      subst hst
      refine rounded ?_
      rw [signedUnits_add]
      cases s <;> simp only [signedUnits_false, signedUnits_true] <;> omega
    rename_i hst
    split
    · rfl
    split
    · rename_i hlt
      refine rounded ?_
      rw [signedUnits_add_of_ne hst hlt.le]
      cases s <;> simp
    · rename_i hlt
      refine rounded ?_
      rw [add_comm, signedUnits_add_of_ne (Ne.symm hst) (Nat.le_of_not_lt hlt)]
      cases t <;> simp

/-- A sum of at most 53 bits that is in range is exact. -/
theorem units_add_of_onGrid {x y : Binary64} (hx : x.isFinite) (hy : y.isFinite)
    (hgrid : OnGrid (units x + units y).natAbs)
    (hrange : (units x + units y).natAbs < overflowUnits) :
    (x + y).isFinite ∧ units (x + y) = units x + units y := by
  have hfinite : (x + y).isFinite := isFinite_add hx hy (by rwa [roundQuotient_one hgrid])
  exact ⟨hfinite, by rw [units_add hfinite, nearestUnits_of_onGrid hgrid]⟩

/-! ## Products and quotients -/

/-- A product of finite values is in range if the exact product has a magnitude in range,
rounded. -/
theorem isFinite_mul {x y : Binary64} (hx : x.isFinite) (hy : y.isFinite)
    (h : roundQuotient (units x * units y).natAbs unitsPerOne < overflowUnits) :
    (x * y).isFinite := by
  cases x with
  | nan => contradiction
  | infinite => contradiction
  | finite s m hm bm =>
  cases y with
  | nan => contradiction
  | infinite => contradiction
  | finite t n hn bn =>
    have habs : (signedUnits s m * signedUnits t n).natAbs = m * n := by
      cases s <;> cases t <;> simp [Int.natAbs_mul]
    show (round (s != t) (m * n) unitsPerOne).isFinite
    rw [round, isFinite_ofUnits_iff, ← habs]
    exact h

/-- A quotient of finite values is in range if the exact quotient has a magnitude in range,
rounded. -/
theorem isFinite_div {x y : Binary64} (hx : x.isFinite) (hy : y.isFinite) (h0 : units y ≠ 0)
    (h : roundQuotient ((units x).natAbs * unitsPerOne) (units y).natAbs < overflowUnits) :
    (x / y).isFinite := by
  cases x with
  | nan => contradiction
  | infinite => contradiction
  | finite s m hm bm =>
  cases y with
  | nan => contradiction
  | infinite => contradiction
  | finite t n hn bn =>
    have habs (r : Bool) (k : Nat) : (signedUnits r k).natAbs = k := by cases r <;> simp
    rw [units_finite, units_finite, habs, habs] at h
    rw [units_finite, ← Int.natAbs_ne_zero, habs] at h0
    show (if n = 0 then _ else round (s != t) (m * unitsPerOne) n).isFinite
    rw [if_neg h0, round, isFinite_ofUnits_iff]
    exact h

/-- A number of units that comes out even is not rounded. -/
theorem nearestUnits_mul_of_onGrid {n : Int} (h : OnGrid n.natAbs) {den : Nat} (hd : 0 < den) :
    nearestUnits (n * den) den = n := by
  rw [nearestUnits, Int.natAbs_mul, Int.natAbs_natCast, roundQuotient_of_onGrid h hd, Int.sign_mul,
    Int.sign_natCast_of_ne_zero hd.ne', mul_one, Int.sign_mul_natAbs]

/-- A product of at most 53 bits that is in range is exact. -/
theorem units_mul_of_onGrid {x y : Binary64} {n : Int} (hx : x.isFinite) (hy : y.isFinite)
    (hproduct : units x * units y = n * unitsPerOne) (hgrid : OnGrid n.natAbs)
    (hrange : n.natAbs < overflowUnits) : (x * y).isFinite ∧ units (x * y) = n := by
  have hfinite : (x * y).isFinite := by
    apply isFinite_mul hx hy
    rwa [hproduct, Int.natAbs_mul, Int.natAbs_natCast,
      roundQuotient_of_onGrid hgrid unitsPerOne_pos]
  refine ⟨hfinite, ?_⟩
  rw [units_mul hfinite, hproduct, nearestUnits_mul_of_onGrid hgrid unitsPerOne_pos]

/-- A quotient of at most 53 bits that is in range is exact. -/
theorem units_div_of_onGrid {x y : Binary64} {n : Int} (hx : x.isFinite) (hy : y.isFinite)
    (h0 : units y ≠ 0) (hquotient : units x * unitsPerOne = n * units y)
    (hgrid : OnGrid n.natAbs) (hrange : n.natAbs < overflowUnits) :
    (x / y).isFinite ∧ units (x / y) = n := by
  have hden : 0 < (units y).natAbs := Int.natAbs_pos.2 h0
  have hfinite : (x / y).isFinite := by
    apply isFinite_div hx hy h0
    have habs : (units x).natAbs * unitsPerOne = n.natAbs * (units y).natAbs := by
      rw [← Int.natAbs_natCast unitsPerOne, ← Int.natAbs_mul, hquotient, Int.natAbs_mul]
    rwa [habs, roundQuotient_of_onGrid hgrid hden]
  refine ⟨hfinite, ?_⟩
  have hscaled : units x * unitsPerOne * (units y).sign = n * (units y).natAbs := by
    rw [hquotient, mul_assoc, mul_comm (units y), Int.sign_mul_self_eq_natAbs]
  rw [units_div hfinite hy (isZero_of_units_ne h0), hscaled, nearestUnits_mul_of_onGrid hgrid hden]

/-! ## Many sums -/

/-- The magnitudes of some values together, in units. -/
def totalUnits (xs : List Binary64) : Nat := (xs.map fun x => (units x).natAbs).sum

theorem totalUnits_cons (x : Binary64) (xs : List Binary64) :
    totalUnits (x :: xs) = (units x).natAbs + totalUnits xs := rfl

/-- The exact sum of some values, in units. -/
def sumUnits (xs : List Binary64) : Int := (xs.map units).sum

theorem sumUnits_cons (x : Binary64) (xs : List Binary64) :
    sumUnits (x :: xs) = units x + sumUnits xs := rfl

theorem natAbs_sumUnits_le (xs : List Binary64) : (sumUnits xs).natAbs ≤ totalUnits xs := by
  induction xs with
  | nil => exact Nat.le_refl 0
  | cons x xs ih =>
    rw [sumUnits_cons, totalUnits_cons]
    omega

/-- Values that are whole multiples of a power of two, and together less than `2 ^ 53` times this
power and in range. -/
structure FitsGrid (k : Nat) (xs : List Binary64) : Prop where
  finite : ∀ x ∈ xs, x.isFinite
  dvd : ∀ x ∈ xs, (twoPow k : Int) ∣ units x
  total_lt : totalUnits xs < twoPow k * twoPow 53
  bounded : totalUnits xs < overflowUnits

/-- Values whose partial sums have at most 53 bits, in whatever order they are added up. -/
def AddsExactly (xs : List Binary64) : Prop := ∃ k, FitsGrid k xs

theorem addsExactly_nil : AddsExactly [] :=
  ⟨0, List.forall_mem_nil _, List.forall_mem_nil _,
    Nat.mul_pos (twoPow_pos _) (twoPow_pos _), overflowUnits_pos⟩

/-- A single value adds up exactly. -/
theorem addsExactly_singleton {x : Binary64} (h : x.isFinite) : AddsExactly [x] := by
  have hgrid : spacing (units x).natAbs ∣ (units x).natAbs := onGrid_units h
  have hlt := div_spacing_lt (units x).natAbs
  refine ⟨(units x).natAbs.log2 - 52, ?_, ?_, ?_, ?_⟩
  · exact List.forall_mem_singleton.2 h
  · refine List.forall_mem_singleton.2 ?_
    exact Int.natCast_dvd.2 hgrid
  · rw [Nat.div_lt_iff_lt_mul (spacing_pos _), Nat.mul_comm] at hlt
    simpa [totalUnits, spacing] using hlt
  · simpa [totalUnits] using natAbs_units_lt h

section

variable {k : Nat}

/-- A whole multiple of a power of two is on the grid if it is less than 53 bits above it. -/
theorem onGrid_of_dvd {n : Int} (hdvd : (twoPow k : Int) ∣ n)
    (hlt : n.natAbs < twoPow k * twoPow 53) : OnGrid n.natAbs := by
  obtain ⟨t, ht⟩ := Int.natCast_dvd.1 hdvd
  rw [ht] at hlt ⊢
  exact onGrid_twoPow_mul k (Nat.lt_of_mul_lt_mul_left hlt)

theorem FitsGrid.tail {x : Binary64} {xs : List Binary64} (h : FitsGrid k (x :: xs)) :
    FitsGrid k xs where
  finite y hy := h.finite y (List.mem_cons_of_mem _ hy)
  dvd y hy := h.dvd y (List.mem_cons_of_mem _ hy)
  total_lt := by
    have := h.total_lt
    rw [totalUnits_cons] at this
    omega
  bounded := by
    have := h.bounded
    rw [totalUnits_cons] at this
    omega

theorem FitsGrid.dvd_sumUnits {xs : List Binary64} (h : FitsGrid k xs) :
    (twoPow k : Int) ∣ sumUnits xs := by
  refine List.dvd_sum fun n hn => ?_
  obtain ⟨x, hx, rfl⟩ := List.mem_map.1 hn
  exact h.dvd x hx

/-- What is added up so far is exact as long as there is room for the rest. -/
theorem units_foldl_add {xs : List Binary64} {x : Binary64} (h : FitsGrid k (x :: xs)) :
    (xs.foldl (· + ·) x).isFinite ∧ units (xs.foldl (· + ·) x) = units x + sumUnits xs := by
  induction xs generalizing x with
  | nil => exact ⟨h.finite x List.mem_cons_self, (Int.add_zero _).symm⟩
  | cons y xs ih =>
    have hx := h.finite x List.mem_cons_self
    have hy := h.tail.finite y List.mem_cons_self
    have hdvd : (twoPow k : Int) ∣ units x + units y :=
      Int.dvd_add (h.dvd x List.mem_cons_self) (h.tail.dvd y List.mem_cons_self)
    have htotal := h.total_lt
    have hbounded := h.bounded
    rw [totalUnits_cons, totalUnits_cons] at htotal hbounded
    obtain ⟨hfinite, hunits⟩ := units_add_of_onGrid hx hy (onGrid_of_dvd hdvd (by omega)) (by omega)
    have hnext : FitsGrid k ((x + y) :: xs) := {
      finite := List.forall_mem_cons.2 ⟨hfinite, h.tail.tail.finite⟩
      dvd := List.forall_mem_cons.2 ⟨hunits ▸ hdvd, h.tail.tail.dvd⟩
      total_lt := by
        rw [totalUnits_cons, hunits]
        omega
      bounded := by
        rw [totalUnits_cons, hunits]
        omega }
    obtain ⟨hlast, hsum⟩ := ih hnext
    exact ⟨hlast, by rw [List.foldl_cons, hsum, hunits, sumUnits_cons, add_assoc]⟩

/-- Taking values away from their exact sum one by one leaves the sum of the others, and at last
zero. -/
theorem isZero_foldl_sub_of_sumUnits {xs : List Binary64} {x : Binary64} (hx : x.isFinite)
    (h : FitsGrid k xs) (hsum : units x = sumUnits xs) : (xs.foldl (· - ·) x).isZero := by
  induction xs generalizing x with
  | nil => exact isZero_iff.2 ⟨hx, hsum⟩
  | cons y xs ih =>
    have hrest : units x + units (-y) = sumUnits xs := by
      rw [units_neg, hsum, sumUnits_cons]
      omega
    have habs := natAbs_sumUnits_le xs
    have htotal := h.tail.total_lt
    have hbounded := h.tail.bounded
    have hy : (-y).isFinite := (isFinite_neg y).trans (h.finite y List.mem_cons_self)
    obtain ⟨hfinite, hunits⟩ := units_add_of_onGrid hx hy
      (by rw [hrest]; exact onGrid_of_dvd h.tail.dvd_sumUnits (by omega)) (by rw [hrest]; omega)
    exact ih hfinite h.tail (hunits.trans hrest)

end

/-- Taken away one by one from their sum, values that add up exactly leave zero. -/
theorem isZero_foldl_sub {xs : List Binary64} (h : AddsExactly xs) :
    (xs.foldl (· - ·) (xs.foldl (· + ·) zero)).isZero := by
  obtain ⟨k, h⟩ := h
  have hzero : FitsGrid k (zero :: xs) := {
    finite := List.forall_mem_cons.2 ⟨rfl, h.finite⟩
    dvd := List.forall_mem_cons.2 ⟨Int.dvd_zero _, h.dvd⟩
    total_lt := by simpa [totalUnits_cons, units_zero] using h.total_lt
    bounded := by simpa [totalUnits_cons, units_zero] using h.bounded }
  obtain ⟨hfinite, hunits⟩ := units_foldl_add hzero
  exact isZero_foldl_sub_of_sumUnits hfinite h (by rw [hunits, units_zero, Int.zero_add])

end PolySolve.Binary64
