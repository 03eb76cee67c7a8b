import PolySolve.Proofs.Binary64.Underflow
import PolySolve.Proofs.Solution.Coherence

/-!
# Conjugate roots

With a negative discriminant the roots are complex, and their imaginary parts are never zero. The
discriminant can be tiny and the leading coefficient huge, but not both at once: the larger the
coefficient is, the further apart are the values that the discriminant is a difference of. This is
close: for the greatest coefficients that leave the discriminant finite, the bounds below have less
than a factor of two to spare.

* `abs_value_le_neg_discriminant`: the discriminant against the leading coefficient;
* `abs_value_lt_root`: its square root against the divisor;
* `outcome_of_complexPair`: what is reported as a conjugate pair;
* `conjugates_of_solve`: the roots have two signs and one text.
-/

namespace PolySolve

open Binary64 Decimal

-- The elaborator must not evaluate these powers of two.
attribute [local irreducible] overflowUnits unitsPerOne

namespace Polynomial

variable {p : Polynomial} {o : Outcome}

/-! ## Magnitudes -/

/-- A magnitude `A` is less than four times `R * U` if it is at most `2 ^ 53` times `R ^ 2 * U`, but
for four roundings, and less than `U` by `2 ^ 50`. -/
theorem lt_four_mul_of_sq {A R U : ℚ} (hA : 0 ≤ A) (hR : 0 < R) (hU : 0 < U)
    (hsquare : (1 - roundoff) ^ 4 * A ≤ 2 ^ 53 * (R ^ 2 * U)) (hrange : A * 2 ^ 50 < U) :
    A < 4 * (R * U) := by
  have hhalf : 1 / 2 * A ≤ (1 - roundoff) ^ 4 * A :=
    mul_le_mul_of_nonneg_right (by norm_num [roundoff]) hA
  refine lt_of_pow_lt_pow_left₀ 2 (by positivity) ?_
  calc A ^ 2 = 2 * (1 / 2 * A) * A := by ring
    _ ≤ 2 * (2 ^ 53 * (R ^ 2 * U)) * A := mul_le_mul_of_nonneg_right (by linarith) hA
    _ = 16 * (R ^ 2 * U) * (A * 2 ^ 50) := by ring
    _ < 16 * (R ^ 2 * U) * U := mul_lt_mul_of_pos_left hrange (by positivity)
    _ = (4 * (R * U)) ^ 2 := by ring

section

variable (hf : p.discriminant.isFinite) (hneg : p.discriminant < zero)

include hf hneg

/-- A discriminant below zero is not small beside the leading coefficient. -/
theorem abs_value_le_neg_discriminant :
    (1 - roundoff) ^ 2 * |value (4 * p.coefficient 2)| ≤
      2 ^ 53 * (-value p.discriminant * unitsPerOne) := by
  have hs := one_sub_roundoff_pos
  have hs1 : 1 - roundoff ≤ 1 := sub_le_self 1 roundoff_pos.le
  obtain ⟨hsquare, hproduct⟩ := isFinite_of_sub hf
  have hsquare0 : 0 ≤ value (p.coefficient 1 * p.coefficient 1) :=
    value_nonneg_iff.2 (units_mul_self_nonneg hsquare)
  have hless := value_lt_of_sub_neg hf hneg
  have hlow : 1 ≤ -value p.discriminant * unitsPerOne := by
    have hvalue := (value_neg_iff hf).2 hneg
    rw [← abs_of_neg hvalue]
    exact one_le_abs_value_mul fun h0 => hvalue.ne (value_eq_zero_iff.2 h0)
  rcases lt_or_ge |value (4 * p.coefficient 2)| (2 ^ 52) with hsmall | hlarge
  · -- One unit is enough.
    calc (1 - roundoff) ^ 2 * |value (4 * p.coefficient 2)|
        ≤ |value (4 * p.coefficient 2)| :=
          mul_le_of_le_one_left (abs_nonneg _) (pow_le_one₀ hs.le hs1)
      _ ≤ 2 ^ 53 * (-value p.discriminant * unitsPerOne) := by linarith
  · have hconstant : units (p.coefficient 0) ≠ 0 := by
      intro h0
      have hlost : value (4 * p.coefficient 2 * p.coefficient 0) = 0 :=
        value_mul_eq_zero hproduct (by rw [value_eq_zero_iff.2 h0, mul_zero])
      linarith
    have hfactor := abs_value_le_of_mul hproduct hlarge hconstant
    rw [abs_of_pos (hsquare0.trans_lt hless)] at hfactor
    calc (1 - roundoff) ^ 2 * |value (4 * p.coefficient 2)|
        = (1 - roundoff) * ((1 - roundoff) * |value (4 * p.coefficient 2)|) := by
          rw [sq, mul_assoc]
      _ ≤ (1 - roundoff) * (value (4 * p.coefficient 2 * p.coefficient 0) * unitsPerOne) :=
          mul_le_mul_of_nonneg_left hfactor hs.le
      _ = (1 - roundoff) * value (4 * p.coefficient 2 * p.coefficient 0) * unitsPerOne :=
          (mul_assoc _ _ _).symm
      _ ≤ 2 ^ 53 * -value p.discriminant * unitsPerOne :=
          mul_le_mul_of_nonneg_right (value_le_of_sub_neg hf hsquare0 hneg) unitsPerOne_posQ.le
      _ = 2 ^ 53 * (-value p.discriminant * unitsPerOne) := mul_assoc _ _ _

theorem value_neg_discriminant_pos : 0 < value (-p.discriminant) := by
  rw [value_neg, Left.neg_pos_iff]
  exact (value_neg_iff hf).2 hneg

/-- The root of the discriminant against the leading coefficient, by its square. -/
theorem abs_value_le_sq_root (hroot : (-p.discriminant).sqrt.isFinite) :
    (1 - roundoff) ^ 4 * |value (4 * p.coefficient 2)| ≤
      2 ^ 53 * (value (-p.discriminant).sqrt ^ 2 * unitsPerOne) := by
  have hbound := (sqrt_bounds ((isFinite_neg _).trans hf)
    (value_neg_discriminant_pos hf hneg) hroot).1
  rw [value_neg] at hbound
  calc (1 - roundoff) ^ 4 * |value (4 * p.coefficient 2)|
      = (1 - roundoff) ^ 2 * ((1 - roundoff) ^ 2 * |value (4 * p.coefficient 2)|) := by ring
    _ ≤ (1 - roundoff) ^ 2 * (2 ^ 53 * (-value p.discriminant * unitsPerOne)) :=
        mul_le_mul_of_nonneg_left (abs_value_le_neg_discriminant hf hneg) (sq_nonneg _)
    _ = 2 ^ 53 * ((1 - roundoff) ^ 2 * -value p.discriminant * unitsPerOne) := by ring
    _ ≤ 2 ^ 53 * (value (-p.discriminant).sqrt ^ 2 * unitsPerOne) :=
        mul_le_mul_of_nonneg_left (mul_le_mul_of_nonneg_right hbound unitsPerOne_posQ.le)
          (by norm_num)

theorem abs_value_root_pos (hroot : (-p.discriminant).sqrt.isFinite) :
    0 < |value (-p.discriminant).sqrt| := by
  have hpos := value_neg_discriminant_pos hf hneg
  have hbound := (sqrt_bounds ((isFinite_neg _).trans hf) hpos hroot).1
  refine abs_pos.2 fun h0 => ?_
  rw [h0, zero_pow two_ne_zero] at hbound
  exact absurd hbound (not_le.2 (mul_pos (pow_pos one_sub_roundoff_pos 2) hpos))

/-- The divisor is less than twice the root of the discriminant, in the least values. -/
theorem abs_value_lt_root (hroot : (-p.discriminant).sqrt.isFinite) :
    |value (2 * p.coefficient 2)| < 2 * (|value (-p.discriminant).sqrt| * unitsPerOne) := by
  have hfour : (4 * p.coefficient 2).isFinite := (isFinite_of_mul (isFinite_of_sub hf).2).1
  have hdouble : |value (4 * p.coefficient 2)| = 2 * |value (2 * p.coefficient 2)| := by
    rw [value_four_mul hfour, value_two_mul (isFinite_two_mul hfour), abs_mul, abs_mul]
    norm_num
    ring
  have hsquare := abs_value_le_sq_root hf hneg hroot
  rw [← sq_abs (value _)] at hsquare
  have := lt_four_mul_of_sq (abs_nonneg _) (abs_value_root_pos hf hneg hroot) unitsPerOne_posQ
    hsquare (abs_value_mul_lt hfour)
  linarith

/-- The imaginary part of the first root is above zero. -/
theorem complexRoot_im_pos (hlead : (p.coefficient 2).isZero = false)
    (him : p.complexRoot.im.isFinite) : zero < p.complexRoot.im := by
  have hquotient : ((-p.discriminant).sqrt / (2 * p.coefficient 2)).isFinite := by
    rwa [complexRoot, isFinite_abs] at him
  have hdivisor := isFinite_divisor hf
  have hdivisor0 : units (2 * p.coefficient 2) ≠ 0 := fun h0 => by
    have := isZero_two_mul hlead
    rw [isZero_iff.2 ⟨hdivisor, h0⟩] at this
    contradiction
  have hne := units_div_ne hquotient hdivisor hdivisor0
    (abs_value_lt_root hf hneg (isFinite_of_div hquotient))
  rw [lt_iff_units rfl him, units_zero, complexRoot, units_abs]
  omega

end

/-! ## The pair of roots -/

theorem outcome_of_complexPair (hkind : p.outcome.kind = .complexPair) :
    p.degree = 2 ∧ ¬ zero < p.discriminant ∧ p.discriminant.isZero = false ∧
      p.outcome = ⟨.complexPair, 2, some p.discriminant,
        [.complex p.complexRoot, .complex p.complexRoot.conj]⟩ := by
  have constant : ∀ x d, (solveConstant x d).kind ≠ .complexPair := fun x d => by
    unfold solveConstant
    split <;> exact Kind.noConfusion
  unfold outcome at hkind ⊢
  split at hkind
  · contradiction
  rename_i hhigh
  rw [if_neg hhigh]
  split at hkind
  · rename_i hdegree
    rw [if_pos hdegree]
    unfold quadraticOutcome at hkind ⊢
    dsimp only at hkind ⊢
    split at hkind
    · contradiction
    rename_i hpos
    rw [if_neg hpos]
    cases hz : p.discriminant.isZero with
    | true =>
      rw [hz] at hkind
      contradiction
    | false => exact ⟨hdegree, hpos, rfl, rfl⟩
  split at hkind
  · rw [solveLinear] at hkind
    split at hkind
    · exact absurd hkind (constant _ _)
    · contradiction
  · exact absurd hkind (constant _ _)

end Polynomial

namespace Complex

variable {z : Complex}

theorem conj_im_neg (hf : z.im.isFinite) (hpos : Binary64.zero < z.im) :
    z.conj.im < Binary64.zero := by
  rw [lt_iff_units rfl hf, units_zero] at hpos
  rw [conj, lt_iff_units ((isFinite_neg _).trans hf) rfl, units_neg, units_zero]
  omega

/-- A root above the real axis, and below it its conjugate, in the same two texts. -/
theorem fixedText_of_pos (hf : z.im.isFinite) (hpos : Binary64.zero < z.im)
    (habs : z.im.abs = z.im) :
    z.fixedText = fixedChars 6 z.re ++ " + ".toList ++ fixedChars 6 z.im ++ ['i'] ∧
      z.conj.fixedText = fixedChars 6 z.re ++ " - ".toList ++ fixedChars 6 z.im ++ ['i'] := by
  have hsign : ¬ z.im < Binary64.zero := fun hneg => ((lt_zero_iff hf).1 hneg).1 hpos
  constructor
  · rw [fixedText, if_neg hsign, habs]
  · rw [fixedText, if_pos (conj_im_neg hf hpos), conj, Binary64.abs_neg, habs]

end Complex

namespace Polynomial

/-- A pair of complex roots is a root above the real axis and its conjugate below it, and the two
lines that tell them have the same texts for the parts, with a plus and with a minus. -/
theorem conjugates_of_solve {ts : List Term} {o : Outcome} (h : (reduce ts).solve = .ok o)
    (hkind : o.kind = .complexPair) :
    ∃ z : Complex, o.roots = [.complex z, .complex z.conj] ∧ z.isFinite ∧
      zero < z.im ∧ z.conj.im < zero ∧
      ∃ front, front.length = 4 ∧ o.lines (reduce ts) = .ok (front ++
        [fixedChars 6 z.re ++ " + ".toList ++ fixedChars 6 z.im ++ ['i'],
          fixedChars 6 z.re ++ " - ".toList ++ fixedChars 6 z.im ++ ['i']]) := by
  have hlead := hasLead_reduce ts
  obtain ⟨rfl, hbounded⟩ := isBounded_of_solve hlead h
  generalize reduce ts = p at *
  obtain ⟨hdegree, hpos, hz, houtcome⟩ := outcome_of_complexPair hkind
  have hf := hbounded.discriminant hdegree
  have hneg : p.discriminant < zero := (lt_zero_iff hf).2 ⟨hpos, hz⟩
  have hlead2 := hlead.isZero_coefficient hdegree (by decide)
  have hfinite : p.complexRoot.isFinite :=
    hbounded.roots (.complex p.complexRoot) (by rw [houtcome]; exact List.mem_cons_self)
  have him := (Bool.and_eq_true_iff.1 hfinite).2
  have habove := complexRoot_im_pos hf hneg hlead2 him
  have habs : p.complexRoot.im.abs = p.complexRoot.im := by
    rw [complexRoot]
    cases (-p.discriminant).sqrt / (2 * p.coefficient 2) <;> rfl
  obtain ⟨hfirst, hsecond⟩ := Complex.fixedText_of_pos him habove habs
  refine ⟨p.complexRoot, by rw [houtcome], hfinite, habove, Complex.conj_im_neg him habove, ?_⟩
  rw [← hfirst, ← hsecond, houtcome]
  exact ⟨[_, _, _, _], rfl, rfl⟩

/-- A leading coefficient of `2 ^ 1020` and the least constant: the square of the coefficient
between them is the value right below their product. -/
def farTerms : List Term :=
  [⟨ofTwoPow (unitPlaces + 1020), 2⟩,
    ⟨ofTwoPow (unitPlaces - 26) - ofTwoPow (unitPlaces - 79), 1⟩, ⟨ofTwoPow 0, 0⟩]

/-- The imaginary part is as small as two units, and is not lost. -/
theorem conjugates_of_farTerms :
    ∃ o, (reduce farTerms).solve = .ok o ∧ o.kind = .complexPair ∧
      ∃ z : Complex, o.roots = [.complex z, .complex z.conj] ∧ zero < z.im ∧
        z.im = ofTwoPow 1 := by
  have hroots : Root.allFinite (reduce farTerms).outcome.roots = .ok true := by decide +kernel
  have solved : (reduce farTerms).solve = .ok (reduce farTerms).outcome := by
    rw [solve_of_finite (hasLead_reduce _) (by decide +kernel) fun _ => by decide +kernel, hroots]
    rfl
  have hkind : (reduce farTerms).outcome.kind = .complexPair := by decide +kernel
  obtain ⟨z, hz, -, hpos, -⟩ := conjugates_of_solve solved hkind
  refine ⟨_, solved, hkind, z, hz, hpos, ?_⟩
  have him : (reduce farTerms).complexRoot.im = ofTwoPow 1 := by decide +kernel
  obtain ⟨-, -, -, houtcome⟩ := outcome_of_complexPair hkind
  rw [houtcome] at hz
  obtain rfl : (reduce farTerms).complexRoot = z :=
    Root.complex.inj (List.cons.inj hz).1
  exact him

end Polynomial

end PolySolve
