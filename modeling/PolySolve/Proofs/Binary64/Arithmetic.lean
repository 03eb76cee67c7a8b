import PolySolve.Binary64.Modulus

/-!
# Zeros, infinities and nan in arithmetic

Nan is the result of every operation on it, so it is never lost in a longer
computation, and an infinity is lost only in a divisor. Twice a value is zero
only if the value is, and adding plus zero changes nothing but minus zero.

* `isFinite_of_hypot`: only finite parts have a finite modulus;
* `isFinite_of_add`, `isFinite_of_mul`, `isFinite_of_div`: only finite operands
  have a finite result;
* `isZero_two_mul`, `unsignedZero_of_isZero`: nothing else becomes zero.
-/

namespace PolySolve.Binary64

-- The elaborator must not evaluate these powers of two.
attribute [local irreducible] overflowUnits unitsPerOne

/-! ## Nan -/

@[simp] theorem nan_add (x : Binary64) : nan + x = nan := rfl

@[simp] theorem add_nan (x : Binary64) : x + nan = nan := by cases x <;> rfl

@[simp] theorem nan_sub (x : Binary64) : nan - x = nan := rfl

@[simp] theorem nan_mul (x : Binary64) : nan * x = nan := rfl

@[simp] theorem mul_nan (x : Binary64) : x * nan = nan := by cases x <;> rfl

@[simp] theorem nan_div (x : Binary64) : nan / x = nan := rfl

@[simp] theorem sqrt_nan : nan.sqrt = nan := rfl

@[simp] theorem abs_nan : nan.abs = nan := rfl

theorem correctedModulus_of_sqrt {a b : Binary64} (h : (a * a + b * b).sqrt = nan) :
    correctedModulus a b = nan := by
  unfold correctedModulus
  rw [h]
  exact nan_sub _

theorem correctedModulus_nan (x : Binary64) :
    correctedModulus nan x = nan ∧ correctedModulus x nan = nan :=
  ⟨correctedModulus_of_sqrt (by simp), correctedModulus_of_sqrt (by simp)⟩

theorem orderedModulus_nan (x : Binary64) :
    orderedModulus nan x = nan ∧ orderedModulus x nan = nan := by
  constructor
  · unfold orderedModulus
    split
    · exact nan_add x
    · simp only [nan_mul, nan_div, correctedModulus_nan, ite_self]
  · unfold orderedModulus
    split
    · exact add_nan x
    · simp only [nan_mul, nan_div, correctedModulus_nan, ite_self]

theorem hypot_of_not_infinite {x y : Binary64} (hx : ∀ s, x ≠ infinite s)
    (hy : ∀ s, y ≠ infinite s) :
    hypot x y =
      if x.abs < y.abs then orderedModulus y.abs x.abs else orderedModulus x.abs y.abs := by
  unfold hypot
  split
  · exact absurd rfl (hx _)
  · exact absurd rfl (hy _)
  · rfl

theorem hypot_nan {x : Binary64} (h : ∀ s, x ≠ infinite s) :
    hypot nan x = nan ∧ hypot x nan = nan := by
  have hn : ∀ s, nan ≠ infinite s := fun _ => Binary64.noConfusion
  rw [hypot_of_not_infinite hn h, hypot_of_not_infinite h hn, abs_nan]
  simp only [orderedModulus_nan, ite_self, and_self]

/-- A modulus is finite only if both parts are. -/
theorem isFinite_of_hypot {x y : Binary64} (h : (hypot x y).isFinite) :
    x.isFinite ∧ y.isFinite := by
  by_cases hx : ∀ s, x ≠ infinite s
  case neg =>
    obtain ⟨s, rfl⟩ := Classical.not_forall_not.1 hx
    rw [(hypot_infinite s y).1] at h
    contradiction
  by_cases hy : ∀ s, y ≠ infinite s
  case neg =>
    obtain ⟨s, rfl⟩ := Classical.not_forall_not.1 hy
    rw [(hypot_infinite s x).2] at h
    contradiction
  cases x with
  | infinite s => exact absurd rfl (hx s)
  | nan => rw [(hypot_nan hy).1] at h; contradiction
  | finite =>
    cases y with
    | infinite s => exact absurd rfl (hy s)
    | nan => rw [(hypot_nan hx).2] at h; contradiction
    | finite => exact ⟨rfl, rfl⟩

theorem hypot_neg (x y : Binary64) : hypot x (-y) = hypot x y := by
  cases x <;> cases y <;> rfl

@[simp] theorem isFinite_abs (x : Binary64) : x.abs.isFinite = x.isFinite := by cases x <;> rfl

/-! ## Finite results -/

@[simp] theorem isFinite_neg (x : Binary64) : (-x).isFinite = x.isFinite := by cases x <;> rfl

/-- A sum is finite only if both summands are: infinities never cancel to a finite value. -/
theorem isFinite_of_add {x y : Binary64} (h : (x + y).isFinite) : x.isFinite ∧ y.isFinite := by
  cases x with
  | nan => contradiction
  | infinite s =>
    cases y with
    | nan => contradiction
    | finite => contradiction
    | infinite t =>
      have hadd : infinite s + infinite t = if s = t then infinite s else nan := rfl
      rw [hadd] at h
      split at h <;> contradiction
  | finite =>
    cases y with
    | nan => contradiction
    | infinite => contradiction
    | finite => exact ⟨rfl, rfl⟩

theorem isFinite_of_sub {x y : Binary64} (h : (x - y).isFinite) : x.isFinite ∧ y.isFinite := by
  have hadd : (x + -y).isFinite := h
  simpa using isFinite_of_add hadd

/-- A product is finite only if both factors are: an infinity times zero is nan. -/
theorem isFinite_of_mul {x y : Binary64} (h : (x * y).isFinite) : x.isFinite ∧ y.isFinite := by
  cases x with
  | nan => contradiction
  | infinite s =>
    cases y with
    | nan => contradiction
    | infinite t => contradiction
    | finite t n hn b =>
      have hmul : infinite s * finite t n hn b = if n = 0 then nan else infinite (s != t) := rfl
      rw [hmul] at h
      split at h <;> contradiction
  | finite s m hm b =>
    cases y with
    | nan => contradiction
    | infinite t =>
      have hmul : finite s m hm b * infinite t = if m = 0 then nan else infinite (s != t) := rfl
      rw [hmul] at h
      split at h <;> contradiction
    | finite => exact ⟨rfl, rfl⟩

/-- A quotient is finite only if the dividend is; an infinite divisor is not told from it. -/
theorem isFinite_of_div {x y : Binary64} (h : (x / y).isFinite) : x.isFinite := by
  cases x with
  | nan => contradiction
  | infinite s => cases y <;> contradiction
  | finite => rfl

/-! ## Zeros -/

theorem lt_zero_iff {x : Binary64} (h : x.isFinite) : x < zero ↔ ¬ zero < x ∧ x.isZero = false := by
  cases x with
  | nan => contradiction
  | infinite s => contradiction
  | finite s n hn b =>
    have below : finite s n hn b < zero ↔ ((if s then -1 else 1) * n : Int) < 1 * 0 :=
      decide_eq_true_iff
    have above : zero < finite s n hn b ↔ (1 * 0 : Int) < (if s then -1 else 1) * n :=
      decide_eq_true_iff
    have isZero : (finite s n hn b).isZero = false ↔ n ≠ 0 := beq_eq_false_iff_ne
    rw [below, above, isZero]
    cases s with
    | false => simp
    | true => simp; omega

theorem round_one {n : Nat} (h : OnGrid n) (b : n < overflowUnits) (negative : Bool) :
    round negative n 1 = finite negative n h b := by
  have := round_of_onGrid h negative Nat.one_pos
  rw [Nat.mul_one] at this
  rw [this, ofUnits, dif_pos b]

/-- Adding plus zero changes nothing but minus zero. -/
theorem unsignedZero_of_isZero {x : Binary64} (h : x.isZero = false) : x.unsignedZero = x := by
  cases x with
  | infinite s => rfl
  | nan => rfl
  | finite s n hn b =>
    have h0 : n ≠ 0 := beq_eq_false_iff_ne.1 h
    show (if s = false then round s (n + 0) 1 else if n = 0 then zero
      else if 0 < n then round s (n - 0) 1 else round false (0 - n) 1) = _
    rw [if_neg h0, if_pos (Nat.pos_of_ne_zero h0), Nat.add_zero, Nat.sub_zero, ite_self,
      round_one hn b]

theorem isFinite_of_isZero {x : Binary64} (h : x.isZero) : x.isFinite := by
  cases x with
  | nan => contradiction
  | infinite s => contradiction
  | finite => rfl

theorem unsignedZero_eq_zero {x : Binary64} (h : x.isZero) : x.unsignedZero = zero := by
  cases x with
  | nan => contradiction
  | infinite s => contradiction
  | finite s n hn b =>
    obtain rfl : n = 0 := beq_iff_eq.1 h
    cases s with
    | true => rfl
    | false => exact round_one onGrid_zero overflowUnits_pos false

theorem isFinite_unsignedZero (x : Binary64) : x.unsignedZero.isFinite = x.isFinite := by
  cases hz : x.isZero with
  | false => rw [unsignedZero_of_isZero hz]
  | true =>
    rw [unsignedZero_eq_zero hz]
    cases x with
    | nan => contradiction
    | infinite s => contradiction
    | finite => rfl

/-- Adding plus zero leaves no minus zero. -/
theorem unsignedZero_ne (x : Binary64) : x.unsignedZero ≠ -zero := by
  cases hz : x.isZero with
  | false =>
    rw [unsignedZero_of_isZero hz]
    rintro rfl
    contradiction
  | true =>
    rw [unsignedZero_eq_zero hz]
    exact fun h => by cases h

theorem unsignedZero_of_ne {x : Binary64} (h : x ≠ -zero) : x.unsignedZero = x := by
  cases hz : x.isZero with
  | false => exact unsignedZero_of_isZero hz
  | true =>
    rw [unsignedZero_eq_zero hz]
    cases x with
    | nan => contradiction
    | infinite s => contradiction
    | finite s n hn b =>
      obtain rfl : n = 0 := beq_iff_eq.1 hz
      cases s with
      | false => rfl
      | true => exact absurd rfl h

theorem zero_add {x : Binary64} (h : x ≠ -zero) : zero + x = x := by
  cases x with
  | nan => rfl
  | infinite s => rfl
  | finite s n hn b =>
    show (if false = s then round false (0 + n) 1 else if 0 = n then zero
      else if n < 0 then round false (0 - n) 1 else round s (n - 0) 1) = _
    cases s with
    | false => rw [if_pos rfl, Nat.zero_add, round_one hn b]
    | true =>
      have h0 : n ≠ 0 := by
        rintro rfl
        exact h rfl
      rw [if_neg Bool.false_ne_true, if_neg (Ne.symm h0), if_neg (Nat.not_lt_zero n), Nat.sub_zero,
        round_one hn b]

theorem zero_add_neg_zero : zero + -zero = zero := rfl

theorem add_neg_zero {x : Binary64} (h : x ≠ -zero) : x + -zero = x := by
  cases x with
  | nan => rfl
  | infinite s => rfl
  | finite s n hn b =>
    show (if s = true then round s (n + 0) 1 else if n = 0 then zero
      else if 0 < n then round s (n - 0) 1 else round true (0 - n) 1) = _
    cases s with
    | true => rw [if_pos rfl, Nat.add_zero, round_one hn b]
    | false =>
      by_cases h0 : n = 0
      · subst h0
        rfl
      · rw [if_neg Bool.false_ne_true, if_neg h0, if_pos (Nat.pos_of_ne_zero h0), Nat.sub_zero,
          round_one hn b]

theorem onGrid_two_mul {n : Nat} (h : OnGrid n) : OnGrid (2 * n) := by
  have hn : 2 * n = twoPow (n.log2 - 52 + 1) * (n / spacing n) := by
    rw [twoPow_succ, Nat.mul_assoc]
    exact congrArg _ (Nat.mul_div_cancel' h).symm
  rw [hn]
  exact onGrid_twoPow_mul _ (div_spacing_lt n)

theorem isZero_ofUnits {negative : Bool} {n : Nat} (h : OnGrid n) (h0 : n ≠ 0) :
    (ofUnits negative n h).isZero = false := by
  unfold ofUnits
  split
  · exact beq_eq_false_iff_ne.2 h0
  · rfl

theorem exists_two : ∃ h b, (2 : Binary64) = finite false (2 * unitsPerOne) h b := by
  have h : OnGrid (2 * unitsPerOne) := by
    rw [unitsPerOne, Nat.mul_comm]
    exact onGrid_twoPow_mul _ (by decide)
  have b : 2 * unitsPerOne < overflowUnits := by decide +kernel
  exact ⟨h, b, round_one h b false⟩

theorem two_mul_finite {s : Bool} {n : Nat} (hn : OnGrid n) (b : n < overflowUnits) :
    2 * finite s n hn b = ofUnits s (2 * n) (onGrid_two_mul hn) := by
  obtain ⟨h₂, b₂, two⟩ := exists_two
  rw [two]
  have hmul : finite false (2 * unitsPerOne) h₂ b₂ * finite s n hn b =
      round (false != s) (2 * unitsPerOne * n) unitsPerOne := rfl
  rw [hmul, Nat.mul_right_comm, round_of_onGrid (onGrid_two_mul hn) _ unitsPerOne_pos,
    Bool.false_bne]

/-- Twice a value is not zero: doubling never loses a bit. -/
theorem isZero_two_mul {x : Binary64} (h : x.isZero = false) : (2 * x).isZero = false := by
  cases x with
  | nan => rw [mul_nan]; rfl
  | infinite s =>
    obtain ⟨h₂, b₂, two⟩ := exists_two
    rw [two]
    show (if 2 * unitsPerOne = 0 then nan else infinite (false != s)).isZero = false
    split <;> rfl
  | finite s n hn b =>
    have h0 : n ≠ 0 := beq_eq_false_iff_ne.1 h
    rw [two_mul_finite]
    exact isZero_ofUnits _ (by omega)

theorem exists_four : ∃ h b, (4 : Binary64) = finite false (4 * unitsPerOne) h b := by
  have h : OnGrid (4 * unitsPerOne) := by
    rw [unitsPerOne, Nat.mul_comm]
    exact onGrid_twoPow_mul _ (by decide)
  have b : 4 * unitsPerOne < overflowUnits := by decide +kernel
  exact ⟨h, b, round_one h b false⟩

theorem four_mul_finite {s : Bool} {n : Nat} (hn : OnGrid n) (b : n < overflowUnits) :
    4 * finite s n hn b = ofUnits s (2 * (2 * n)) (onGrid_two_mul (onGrid_two_mul hn)) := by
  obtain ⟨h₄, b₄, four⟩ := exists_four
  rw [four]
  have hmul : finite false (4 * unitsPerOne) h₄ b₄ * finite s n hn b =
      round (false != s) (4 * unitsPerOne * n) unitsPerOne := rfl
  have hfour : 4 * unitsPerOne * n = 2 * (2 * n) * unitsPerOne := by
    rw [Nat.mul_right_comm, ← Nat.mul_assoc]
  rw [hmul, hfour, round_of_onGrid (onGrid_two_mul (onGrid_two_mul hn)) _ unitsPerOne_pos,
    Bool.false_bne]

theorem isFinite_ofUnits_iff {s : Bool} {n : Nat} (hn : OnGrid n) :
    (ofUnits s n hn).isFinite ↔ n < overflowUnits := by
  unfold ofUnits
  split
  · rename_i b
    exact ⟨fun _ => b, fun _ => rfl⟩
  · rename_i b
    exact ⟨fun h => by contradiction, fun h => absurd h b⟩

/-- If four times a value is in range, so is twice the value. -/
theorem isFinite_two_mul {x : Binary64} (h : (4 * x).isFinite) : (2 * x).isFinite := by
  cases x with
  | nan => rw [mul_nan] at h; contradiction
  | infinite s => exact absurd (isFinite_of_mul h).2 Bool.false_ne_true
  | finite s n hn b =>
    rw [four_mul_finite, isFinite_ofUnits_iff] at h
    rw [two_mul_finite, isFinite_ofUnits_iff]
    omega

end PolySolve.Binary64
