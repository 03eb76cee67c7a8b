import PolySolve.Proofs.Binary64.Order

/-!
# Arithmetic with opposite values

Rounding does not depend on the sign, so the result of an operation on opposite
values is opposite or the same. Only a sum that is zero does not tell its sign:
opposite values add up to plus zero, in either order. Values are therefore
compared up to the sign of a zero, which the other operations hand on as such a
sign, and which is lost in magnitudes.

* `neg_mul_left`, `neg_mul_right`, `neg_div_left`, `neg_div_right`: products and
  quotients, with the sign of a zero;
* `SameValue`: the same value, with either sign if it is zero;
* `sameValue_neg_add`: sums;
* `SameValue.add`, `SameValue.mul`, `SameValue.div`: operations on values that
  are the same but for the sign of a zero;
* `add_ne`, `mul_self_ne`: sums and squares that are no minus zero.
-/

namespace PolySolve.Binary64

-- The elaborator must not evaluate these powers of two.
attribute [local irreducible] overflowUnits unitsPerOne

/-! ## Products and quotients -/

theorem neg_round (s : Bool) (num den : Nat) : -round s num den = round (!s) num den := by
  unfold round ofUnits
  split <;> rfl

theorem neg_mul_left (x y : Binary64) : -x * y = -(x * y) := by
  cases x with
  | nan => rfl
  | infinite s =>
    cases y with
    | nan => rfl
    | infinite t => exact congrArg infinite (Bool.not_bne s t)
    | finite t n hn b =>
      show (if n = 0 then nan else infinite ((!s) != t)) =
        -(if n = 0 then nan else infinite (s != t))
      rw [Bool.not_bne]
      split <;> rfl
  | finite s m hm b =>
    cases y with
    | nan => rfl
    | infinite t =>
      show (if m = 0 then nan else infinite ((!s) != t)) =
        -(if m = 0 then nan else infinite (s != t))
      rw [Bool.not_bne]
      split <;> rfl
    | finite t n hn b =>
      show round ((!s) != t) (m * n) unitsPerOne = -round (s != t) (m * n) unitsPerOne
      rw [neg_round, Bool.not_bne]

theorem mul_swap (x y : Binary64) : x * y = y * x := by
  cases x with
  | nan => rw [nan_mul, mul_nan]
  | infinite s =>
    cases y with
    | nan => rfl
    | infinite t => exact congrArg infinite bne_comm
    | finite t n hn b =>
      show (if n = 0 then nan else infinite (s != t)) = if n = 0 then nan else infinite (t != s)
      rw [bne_comm]
  | finite s m hm b =>
    cases y with
    | nan => rfl
    | infinite t =>
      show (if m = 0 then nan else infinite (s != t)) = if m = 0 then nan else infinite (t != s)
      rw [bne_comm]
    | finite t n hn b =>
      show round (s != t) (m * n) unitsPerOne = round (t != s) (n * m) unitsPerOne
      rw [bne_comm, Nat.mul_comm]

theorem neg_mul_right (x y : Binary64) : x * -y = -(x * y) := by
  rw [mul_swap, neg_mul_left, mul_swap]

theorem neg_div_left (x y : Binary64) : -x / y = -(x / y) := by
  cases x with
  | nan => rfl
  | infinite s =>
    cases y with
    | nan => rfl
    | infinite t => rfl
    | finite t n hn b => exact congrArg infinite (Bool.not_bne s t)
  | finite s m hm b =>
    cases y with
    | nan => rfl
    | infinite t =>
      show finite ((!s) != t) 0 _ _ = finite (!(s != t)) 0 _ _
      rw [Bool.not_bne]
    | finite t n hn b =>
      show (if n = 0 then if m = 0 then nan else infinite ((!s) != t)
          else round ((!s) != t) (m * unitsPerOne) n) =
        -(if n = 0 then if m = 0 then nan else infinite (s != t)
          else round (s != t) (m * unitsPerOne) n)
      rw [Bool.not_bne]
      split
      · split <;> rfl
      · rw [neg_round]

theorem neg_div_right (x y : Binary64) : x / -y = -(x / y) := by
  cases x with
  | nan => rfl
  | infinite s =>
    cases y with
    | nan => rfl
    | infinite t => rfl
    | finite t n hn b => exact congrArg infinite (Bool.bne_not s t)
  | finite s m hm b =>
    cases y with
    | nan => rfl
    | infinite t =>
      show finite (s != !t) 0 _ _ = finite (!(s != t)) 0 _ _
      rw [Bool.bne_not]
    | finite t n hn b =>
      show (if n = 0 then if m = 0 then nan else infinite (s != !t)
          else round (s != !t) (m * unitsPerOne) n) =
        -(if n = 0 then if m = 0 then nan else infinite (s != t)
          else round (s != t) (m * unitsPerOne) n)
      rw [Bool.bne_not]
      split
      · split <;> rfl
      · rw [neg_round]

/-! ## The sign of a zero -/

/-- The same value, or zero and zero with any signs. -/
def SameValue (x y : Binary64) : Prop := x.unsignedZero = y.unsignedZero

theorem SameValue.refl (x : Binary64) : SameValue x x := rfl

theorem SameValue.symm {x y : Binary64} (h : SameValue x y) : SameValue y x := Eq.symm h

theorem SameValue.trans {x y z : Binary64} (hxy : SameValue x y) (hyz : SameValue y z) :
    SameValue x z := Eq.trans hxy hyz

theorem sameValue_of_isZero {x y : Binary64} (hx : x.isZero) (hy : y.isZero) : SameValue x y := by
  rw [SameValue, unsignedZero_eq_zero hx, unsignedZero_eq_zero hy]

theorem SameValue.eq_or {x y : Binary64} (h : SameValue x y) : x = y ∨ x.isZero ∧ y.isZero := by
  unfold SameValue at h
  cases hx : x.isZero <;> cases hy : y.isZero
  · rw [unsignedZero_of_isZero hx, unsignedZero_of_isZero hy] at h
    exact Or.inl h
  · rw [unsignedZero_of_isZero hx, unsignedZero_eq_zero hy] at h
    rw [h] at hx
    contradiction
  · rw [unsignedZero_eq_zero hx, unsignedZero_of_isZero hy] at h
    rw [← h] at hy
    contradiction
  · exact Or.inr ⟨rfl, rfl⟩

/-- What is the same for the two zeros is the same for values that are the same. -/
theorem SameValue.congr {α : Type} {x y : Binary64} {f : Binary64 → α} (h : SameValue x y)
    (hf : ∀ x y, x.isZero → y.isZero → f x = f y) : f x = f y := by
  rcases h.eq_or with rfl | ⟨hx, hy⟩
  · rfl
  · exact hf x y hx hy

theorem SameValue.eq_of_isZero {x y : Binary64} (h : SameValue x y) (hy : y.isZero = false) :
    x = y := by
  refine h.eq_or.resolve_right fun hz => ?_
  rw [hz.2] at hy
  contradiction

theorem exists_of_isZero {x : Binary64} (h : x.isZero) :
    ∃ s, x = finite s 0 onGrid_zero overflowUnits_pos := by
  cases x with
  | nan => contradiction
  | infinite s => contradiction
  | finite s n hn b =>
    obtain rfl : n = 0 := beq_iff_eq.1 h
    exact ⟨s, rfl⟩

theorem SameValue.isZero {x y : Binary64} (h : SameValue x y) : x.isZero = y.isZero :=
  h.congr fun _ _ hx hy => hx.trans hy.symm

theorem SameValue.isFinite {x y : Binary64} (h : SameValue x y) : x.isFinite = y.isFinite :=
  h.congr fun _ _ hx hy => (isFinite_of_isZero hx).trans (isFinite_of_isZero hy).symm

theorem SameValue.abs {x y : Binary64} (h : SameValue x y) : x.abs = y.abs := by
  refine h.congr fun x y hx hy => ?_
  obtain ⟨s, rfl⟩ := exists_of_isZero hx
  obtain ⟨t, rfl⟩ := exists_of_isZero hy
  rfl

@[simp] theorem isZero_neg (x : Binary64) : (-x).isZero = x.isZero := by cases x <;> rfl

theorem SameValue.neg {x y : Binary64} (h : SameValue x y) : SameValue (-x) (-y) := by
  rcases h.eq_or with rfl | ⟨hx, hy⟩
  · exact .refl _
  · exact sameValue_of_isZero (by rwa [isZero_neg]) (by rwa [isZero_neg])

/-- Finite values that are the same are numerically equal. -/
theorem SameValue.numEq {x y : Binary64} (h : SameValue x y) (hx : x.isFinite) : x.numEq y := by
  rcases h.eq_or with rfl | ⟨hx, hy⟩
  · cases x with
    | nan => contradiction
    | infinite s => contradiction
    | finite s n hn b =>
      show (n == n && (s == s || n == 0)) = true
      rw [beq_self_eq_true, beq_self_eq_true, Bool.true_or, Bool.and_true]
  · obtain ⟨s, rfl⟩ := exists_of_isZero hx
    obtain ⟨t, rfl⟩ := exists_of_isZero hy
    show ((0 : Nat) == 0 && (s == t || (0 : Nat) == 0)) = true
    rw [beq_self_eq_true, Bool.or_true, Bool.and_true]

/-! ## Sums -/

theorem add_swap (x y : Binary64) : x + y = y + x := by
  cases x with
  | nan => rw [nan_add, add_nan]
  | infinite s =>
    cases y with
    | nan => rfl
    | infinite t =>
      show (if s = t then infinite s else nan) = if t = s then infinite t else nan
      by_cases h : s = t
      · rw [h]
      · rw [if_neg h, if_neg (Ne.symm h)]
    | finite t n hn b => rfl
  | finite s m hm b =>
    cases y with
    | nan => rfl
    | infinite t => rfl
    | finite t n hn b =>
      show (if s = t then round s (m + n) 1 else if m = n then zero
          else if n < m then round s (m - n) 1 else round t (n - m) 1) =
        if t = s then round t (n + m) 1 else if n = m then zero
          else if m < n then round t (n - m) 1 else round s (m - n) 1
      by_cases h : s = t
      · rw [if_pos h, if_pos h.symm, h, Nat.add_comm]
      · rw [if_neg h, if_neg (Ne.symm h)]
        rcases Nat.lt_trichotomy m n with hlt | rfl | hlt
        · rw [if_neg (by omega), if_neg (by omega), if_neg (by omega), if_pos hlt]
        · rw [if_pos rfl, if_pos rfl]
        · rw [if_neg (by omega), if_pos hlt, if_neg (by omega), if_neg (by omega)]

/-- The sum of opposite values is opposite, unless it is zero. -/
theorem sameValue_neg_add (x y : Binary64) : SameValue (-x + -y) (-(x + y)) := by
  cases x with
  | nan => exact .refl _
  | infinite s =>
    cases y with
    | nan => exact .refl _
    | infinite t =>
      cases s <;> cases t <;> exact .refl _
    | finite t n hn b => exact .refl _
  | finite s m hm b =>
    cases y with
    | nan => exact .refl _
    | infinite t => exact .refl _
    | finite t n hn b =>
      show SameValue
        (if (!s) = (!t) then round (!s) (m + n) 1 else if m = n then zero
          else if n < m then round (!s) (m - n) 1 else round (!t) (n - m) 1)
        (-(if s = t then round s (m + n) 1 else if m = n then zero
          else if n < m then round s (m - n) 1 else round t (n - m) 1))
      simp only [Bool.not_inj_iff]
      split
      · rw [neg_round]
        exact .refl _
      split
      · exact sameValue_of_isZero rfl rfl
      split
      · rw [neg_round]
        exact .refl _
      · rw [neg_round]
        exact .refl _

theorem sameValue_add_of_isZero {x : Binary64} (h : x.isZero) (y : Binary64) :
    SameValue (x + y) y := by
  obtain ⟨s, rfl⟩ := exists_of_isZero h
  cases y with
  | nan => exact .refl _
  | infinite t => exact .refl _
  | finite t n hn b =>
    show SameValue (if s = t then round s (0 + n) 1 else if 0 = n then zero
      else if n < 0 then round s (0 - n) 1 else round t (n - 0) 1) (finite t n hn b)
    split
    · rename_i hst
      subst hst
      rw [Nat.zero_add, round_one hn b]
      exact .refl _
    split
    · rename_i h0
      subst h0
      exact sameValue_of_isZero rfl rfl
    · rw [if_neg (Nat.not_lt_zero n), Nat.sub_zero, round_one hn b]
      exact .refl _

theorem SameValue.add_right {x x' : Binary64} (h : SameValue x x') (y : Binary64) :
    SameValue (x + y) (x' + y) := by
  rcases h.eq_or with rfl | ⟨hx, hx'⟩
  · exact .refl _
  · exact (sameValue_add_of_isZero hx y).trans (sameValue_add_of_isZero hx' y).symm

theorem SameValue.add {x x' y y' : Binary64} (hx : SameValue x x') (hy : SameValue y y') :
    SameValue (x + y) (x' + y') := by
  refine (hx.add_right y).trans ?_
  rw [add_swap x' y, add_swap x' y']
  exact hy.add_right x'

theorem SameValue.sub {x x' y y' : Binary64} (hx : SameValue x x') (hy : SameValue y y') :
    SameValue (x - y) (x' - y') := hx.add hy.neg

/-- What is taken away may be zero with either sign. -/
theorem sub_eq_of_sameValue {x y y' : Binary64} (hx : x ≠ -zero) (h : SameValue y y') :
    x - y = x - y' := by
  have hzero : ∀ z : Binary64, z.isZero → x - z = x := fun z hz => by
    obtain ⟨s, rfl⟩ := exists_of_isZero hz
    cases s with
    | true => exact unsignedZero_of_ne hx
    | false => exact add_neg_zero hx
  exact h.congr fun y y' hy hy' => (hzero y hy).trans (hzero y' hy').symm

theorem round_one_ne {s : Bool} {n : Nat} (h : s = false ∨ n ≠ 0) : round s n 1 ≠ -zero := by
  show ofUnits s (roundQuotient n 1) (onGrid_roundQuotient n 1) ≠ finite true 0 _ _
  unfold ofUnits
  split
  · intro heq
    obtain ⟨hs, hround⟩ := Binary64.finite.inj heq
    have hn : n ≠ 0 := h.resolve_left (by rw [hs]; decide)
    have hone : roundQuotient 1 1 ≤ roundQuotient n 1 :=
      roundQuotient_mono Nat.one_pos (Nat.one_le_iff_ne_zero.2 hn)
    rw [hround] at hone
    exact absurd hone (by decide)
  · exact Binary64.noConfusion

/-- A sum is minus zero only if both its terms are. -/
theorem add_ne {x : Binary64} (h : x ≠ -zero) (y : Binary64) : x + y ≠ -zero := by
  cases x with
  | nan => exact Binary64.noConfusion
  | infinite s =>
    cases y with
    | nan => exact Binary64.noConfusion
    | infinite t =>
      show (if s = t then infinite s else nan) ≠ _
      split <;> exact Binary64.noConfusion
    | finite t n hn b => exact Binary64.noConfusion
  | finite s m hm b =>
    cases y with
    | nan => exact Binary64.noConfusion
    | infinite t => exact Binary64.noConfusion
    | finite t n hn b =>
      show (if s = t then round s (m + n) 1 else if m = n then zero
        else if n < m then round s (m - n) 1 else round t (n - m) 1) ≠ _
      split
      · refine round_one_ne ?_
        cases s with
        | false => exact Or.inl rfl
        | true =>
          refine Or.inr fun h0 => h ?_
          obtain rfl : m = 0 := by omega
          rfl
      split
      · exact fun heq => Bool.false_ne_true (Binary64.finite.inj heq).1
      split
      · exact round_one_ne (Or.inr (by omega))
      · exact round_one_ne (Or.inr (by omega))

/-! ## Products and quotients of zeros -/

theorem isZero_round_zero (s : Bool) (den : Nat) : (round s 0 den).isZero := by
  have h0 : roundQuotient 0 den = 0 := roundQuotient_zero den
  have hb : roundQuotient 0 den < overflowUnits := by
    rw [h0]
    exact overflowUnits_pos
  unfold round ofUnits
  rw [dif_pos hb]
  exact beq_iff_eq.2 h0

/-- Zero times a value is a zero or nan, whatever the sign of zero is. -/
theorem SameValue.mul_right {x x' : Binary64} (h : SameValue x x') (y : Binary64) :
    SameValue (x * y) (x' * y) := by
  rcases h.eq_or with rfl | ⟨hx, hx'⟩
  · exact .refl _
  obtain ⟨s, rfl⟩ := exists_of_isZero hx
  obtain ⟨s', rfl⟩ := exists_of_isZero hx'
  cases y with
  | nan => exact .refl _
  | infinite t => exact .refl _
  | finite t n hn b =>
    show SameValue (round (s != t) (0 * n) unitsPerOne) (round (s' != t) (0 * n) unitsPerOne)
    rw [Nat.zero_mul]
    exact sameValue_of_isZero (isZero_round_zero _ _) (isZero_round_zero _ _)

theorem SameValue.mul {x x' y y' : Binary64} (hx : SameValue x x') (hy : SameValue y y') :
    SameValue (x * y) (x' * y') := by
  refine (hx.mul_right y).trans ?_
  rw [mul_swap x' y, mul_swap x' y']
  exact hy.mul_right x'

/-- The dividend may be zero with either sign; the divisor may not. -/
theorem SameValue.div {x x' : Binary64} (h : SameValue x x') (y : Binary64) :
    SameValue (x / y) (x' / y) := by
  rcases h.eq_or with rfl | ⟨hx, hx'⟩
  · exact .refl _
  obtain ⟨s, rfl⟩ := exists_of_isZero hx
  obtain ⟨s', rfl⟩ := exists_of_isZero hx'
  cases y with
  | nan => exact .refl _
  | infinite t => exact sameValue_of_isZero rfl rfl
  | finite t n hn b =>
    show SameValue (if n = 0 then if 0 = 0 then nan else infinite (s != t)
        else round (s != t) (0 * unitsPerOne) n)
      (if n = 0 then if 0 = 0 then nan else infinite (s' != t)
        else round (s' != t) (0 * unitsPerOne) n)
    rw [if_pos rfl, if_pos rfl, Nat.zero_mul]
    split
    · exact .refl _
    · exact sameValue_of_isZero (isZero_round_zero _ _) (isZero_round_zero _ _)

/-! ## Squares -/

/-- A square is plus zero, if it is zero. -/
theorem mul_self_ne (x : Binary64) : x * x ≠ -zero := by
  cases x with
  | nan => exact Binary64.noConfusion
  | infinite s => exact Binary64.noConfusion
  | finite s n hn b =>
    show round (s != s) (n * n) unitsPerOne ≠ finite true 0 _ _
    rw [bne_self_eq_false]
    unfold round ofUnits
    split
    · exact fun h => Bool.false_ne_true (Binary64.finite.inj h).1
    · exact Binary64.noConfusion

theorem SameValue.mul_self {x y : Binary64} (h : SameValue x y) : x * x = y * y := by
  have hsquares := h.mul h
  rwa [SameValue, unsignedZero_of_ne (mul_self_ne x), unsignedZero_of_ne (mul_self_ne y)]
    at hsquares

theorem neg_mul_neg_self (x : Binary64) : -x * -x = x * x := by
  rw [neg_mul_left, neg_mul_right, neg_neg]

end PolySolve.Binary64
