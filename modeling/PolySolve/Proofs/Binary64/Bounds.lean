import PolySolve.Proofs.Binary64.Whole

/-!
# Bounds of magnitudes

Rounding does not pass a power of two, so bounds that are powers of two carry
over from the operands of an operation to its rounded result. From this a
computation of a few steps is seen to stay in range without a look at its
rounding errors, as the modulus of a complex number does whose parts are neither
very large nor very small.

* `roundQuotient_le_of_onGrid`, `le_roundQuotient_of_onGrid`, `roundRoot_le_of_onGrid`,
  `le_roundRoot_of_onGrid`: rounding does not pass a value;
* `AtMost`, `AtLeast`: magnitudes up to `2 ^ k`, and from `2 ^ -k` on;
* `Within`: zero, or a magnitude with both bounds;
* `isFinite_hypot`: the modulus of such parts is finite.
-/

namespace PolySolve.Binary64

-- The elaborator must not evaluate these powers of two.
attribute [local irreducible] overflowUnits unitsPerOne

/-! ## Rounding does not pass a value -/

section

variable {num den g n : Nat}

theorem roundQuotient_le_of_onGrid (hg : OnGrid g) (hd : 0 < den) (h : num ≤ g * den) :
    roundQuotient num den ≤ g := by
  have hle := roundQuotient_mono hd h
  rwa [roundQuotient_of_onGrid hg hd] at hle

theorem le_roundQuotient_of_onGrid (hg : OnGrid g) (hd : 0 < den) (h : g * den ≤ num) :
    g ≤ roundQuotient num den := by
  have hle := roundQuotient_mono hd h
  rwa [roundQuotient_of_onGrid hg hd] at hle

theorem roundRoot_le_of_onGrid (hg : OnGrid g) (h : n ≤ g * g) : roundRoot n ≤ g := by
  obtain ⟨s, hs⟩ : ∃ s, spacing (root n) = s := ⟨_, rfl⟩
  obtain ⟨t, ht⟩ : ∃ t, root n / s = t := ⟨_, rfl⟩
  have hspos : 0 < s := hs ▸ spacing_pos _
  have hroot : root n ≤ g := by
    by_contra hlt
    have hsquare := Nat.mul_lt_mul'' (Nat.lt_of_not_le hlt) (Nat.lt_of_not_le hlt)
    have := (root_spec n).1
    omega
  have hdvd : s ∣ g := hs ▸ Nat.dvd_trans (spacing_dvd_spacing hroot) hg
  obtain ⟨j, rfl⟩ := hdvd
  have htj : t ≤ j := by
    rw [← ht]
    exact Nat.div_le_of_le_mul hroot
  rcases roundRoot_cases hs ht with ⟨hround, -⟩ | ⟨hround, hmiddle⟩ <;> rw [hround]
  · exact Nat.mul_le_mul_left s htj
  · refine Nat.mul_le_mul_left s ?_
    by_contra hlast
    obtain rfl : t = j := by omega
    -- Then `n` is at most the square of the lower neighbour, far below that of the middle.
    have hexpand : (2 * t + 1) * s * ((2 * t + 1) * s) =
        4 * (s * t * (s * t)) + 4 * (s * s * t) + s * s := by ring
    have := Nat.mul_pos hspos hspos
    omega

theorem le_roundRoot_of_onGrid (hg : OnGrid g) (h : g * g ≤ n) : g ≤ roundRoot n := by
  obtain ⟨s, hs⟩ : ∃ s, spacing (root n) = s := ⟨_, rfl⟩
  obtain ⟨t, ht⟩ : ∃ t, root n / s = t := ⟨_, rfl⟩
  have hspos : 0 < s := hs ▸ spacing_pos _
  have hfloor : g ≤ s * t := by
    by_cases hdvd : s ∣ g
    · obtain ⟨j, rfl⟩ := hdvd
      have hj : j ≤ root n / s := (Nat.le_div_iff_mul_le hspos).2 (by
        rw [Nat.mul_comm]
        exact le_root h)
      exact Nat.mul_le_mul_left s (ht ▸ hj)
    · obtain ⟨hlt, hle⟩ := lt_of_not_spacing_dvd hg (hs.symm ▸ hdvd)
      rw [hs] at hlt hle
      have ht52 : twoPow 52 ≤ root n / s := (Nat.le_div_iff_mul_le hspos).2 (by rwa [Nat.mul_comm])
      exact hlt.le.trans (Nat.mul_le_mul_left s (ht ▸ ht52))
  rcases roundRoot_cases hs ht with ⟨hround, -⟩ | ⟨hround, -⟩ <;> rw [hround]
  · exact hfloor
  · exact hfloor.trans (Nat.mul_le_mul_left s (Nat.le_succ t))

end

theorem natAbs_nearestUnits (num : Int) (den : Nat) :
    (nearestUnits num den).natAbs = roundQuotient num.natAbs den := by
  rw [nearestUnits, Int.natAbs_mul, Int.natAbs_natCast]
  by_cases h0 : num = 0
  · rw [h0, Int.natAbs_zero, roundQuotient_zero, Nat.mul_zero]
  · rw [Int.natAbs_sign_of_ne_zero h0, Nat.one_mul]

theorem nearestUnits_nonneg {num : Int} (h : 0 ≤ num) (den : Nat) : 0 ≤ nearestUnits num den :=
  mul_nonneg (Int.sign_nonneg_iff.2 h) (Int.natCast_nonneg _)

/-! ## Magnitudes -/

/-- A finite value of a magnitude of at most `2 ^ k`. -/
structure AtMost (k : Nat) (x : Binary64) : Prop where
  isFinite : x.isFinite
  le : (units x).natAbs ≤ twoPow (unitPlaces + k)

/-- A magnitude of at least `2 ^ -k`. -/
def AtLeast (k : Nat) (x : Binary64) : Prop := twoPow (unitPlaces - k) ≤ (units x).natAbs

variable {x y : Binary64} {j k l : Nat}

theorem twoPow_lt_overflowUnits (h : k < 1024) : twoPow (unitPlaces + k) < overflowUnits := by
  rw [overflowUnits]
  exact twoPow_lt_of_lt (Nat.add_lt_add_left h unitPlaces)

namespace AtMost

theorem mono (h : AtMost k x) (hkl : k ≤ l) : AtMost l x :=
  ⟨h.isFinite, h.le.trans (twoPow_le_of_le (by omega))⟩

theorem neg (h : AtMost k x) : AtMost k (-x) := by
  refine ⟨(isFinite_neg x).trans h.isFinite, ?_⟩
  rw [units_neg, Int.natAbs_neg]
  exact h.le

theorem of_toInt? {n : Int} (h : x.toInt? = some n) (hn : |n| ≤ 2 ^ k) : AtMost k x := by
  refine ⟨isFinite_of_toInt? h, ?_⟩
  have hle : n.natAbs ≤ twoPow k := by
    rw [Int.abs_eq_natAbs] at hn
    exact_mod_cast hn
  rw [units_of_toInt? h, natAbs_mul_unitsPerOne, twoPow_add, Nat.mul_comm, unitsPerOne]
  exact Nat.mul_le_mul_left _ hle

theorem add (hx : AtMost j x) (hy : AtMost k y) (h : j < l ∧ k < l ∧ l < 1024) :
    AtMost l (x + y) := by
  obtain ⟨i, rfl⟩ : ∃ i, l = i + 1 := Nat.exists_eq_succ_of_ne_zero (by omega)
  have hsum : (units x + units y).natAbs ≤ twoPow (unitPlaces + (i + 1)) := by
    have hxi := (hx.mono (Nat.le_of_lt_succ h.1)).le
    have hyi := (hy.mono (Nat.le_of_lt_succ h.2.1)).le
    have htwo : twoPow (unitPlaces + (i + 1)) = 2 * twoPow (unitPlaces + i) := twoPow_succ _
    omega
  have hround := roundQuotient_le_of_onGrid (onGrid_twoPow _) Nat.one_pos
    (hsum.trans_eq (Nat.mul_one _).symm)
  have hfinite := isFinite_add hx.isFinite hy.isFinite
    (hround.trans_lt (twoPow_lt_overflowUnits h.2.2))
  refine ⟨hfinite, ?_⟩
  rw [units_add hfinite, natAbs_nearestUnits]
  exact hround

theorem sub (hx : AtMost j x) (hy : AtMost k y) (h : j < l ∧ k < l ∧ l < 1024) :
    AtMost l (x - y) := hx.add hy.neg h

theorem mul (hx : AtMost j x) (hy : AtMost k y) (h : j + k ≤ l ∧ l < 1024) :
    AtMost l (x * y) := by
  have hproduct : (units x * units y).natAbs ≤ twoPow (unitPlaces + l) * unitsPerOne := by
    calc (units x * units y).natAbs = (units x).natAbs * (units y).natAbs := Int.natAbs_mul _ _
      _ ≤ twoPow (unitPlaces + j) * twoPow (unitPlaces + k) := Nat.mul_le_mul hx.le hy.le
      _ = twoPow (unitPlaces + j + (unitPlaces + k)) := (twoPow_add _ _).symm
      _ ≤ twoPow (unitPlaces + l + unitPlaces) := twoPow_le_of_le (by omega)
      _ = twoPow (unitPlaces + l) * unitsPerOne := by rw [unitsPerOne, twoPow_add _ unitPlaces]
  have hround := roundQuotient_le_of_onGrid (onGrid_twoPow _) unitsPerOne_pos hproduct
  have hfinite := isFinite_mul hx.isFinite hy.isFinite
    (hround.trans_lt (twoPow_lt_overflowUnits h.2))
  refine ⟨hfinite, ?_⟩
  rw [units_mul hfinite, natAbs_nearestUnits]
  exact hround

theorem div (hx : AtMost j x) (hy : y.isFinite) (hlow : AtLeast k y)
    (h : j + k ≤ l ∧ l < 1024) : AtMost l (x / y) := by
  have hk : k < unitPlaces := Nat.lt_of_lt_of_le (by omega) (show 1024 ≤ unitPlaces by decide)
  have hden : 0 < (units y).natAbs := (twoPow_pos _).trans_le hlow
  have h0 : units y ≠ 0 := Int.natAbs_pos.1 hden
  have hquotient : (units x).natAbs * unitsPerOne ≤
      twoPow (unitPlaces + l) * (units y).natAbs := by
    calc (units x).natAbs * unitsPerOne ≤ twoPow (unitPlaces + j) * unitsPerOne :=
          Nat.mul_le_mul_right _ hx.le
      _ = twoPow (unitPlaces + j + unitPlaces) := by rw [unitsPerOne, twoPow_add _ unitPlaces]
      _ ≤ twoPow (unitPlaces + l + (unitPlaces - k)) := twoPow_le_of_le (by omega)
      _ = twoPow (unitPlaces + l) * twoPow (unitPlaces - k) := twoPow_add _ _
      _ ≤ twoPow (unitPlaces + l) * (units y).natAbs := Nat.mul_le_mul_left _ hlow
  have hround := roundQuotient_le_of_onGrid (onGrid_twoPow _) hden hquotient
  have hfinite := isFinite_div hx.isFinite hy h0 (hround.trans_lt (twoPow_lt_overflowUnits h.2))
  refine ⟨hfinite, ?_⟩
  rw [units_div hfinite hy (isZero_of_units_ne h0), natAbs_nearestUnits, Int.natAbs_mul,
    Int.natAbs_mul, Int.natAbs_natCast, Int.natAbs_sign_of_ne_zero h0, Nat.mul_one]
  exact hround

theorem sqrt (hx : AtMost k x) (h : 0 ≤ units x) (hk : k < 1024) : AtMost k x.sqrt := by
  obtain h0 | hpos := h.eq_or_lt
  · rwa [sqrt_of_isZero (isZero_iff.2 ⟨hx.isFinite, h0.symm⟩)]
  have hsquare : (units x).natAbs * unitsPerOne ≤
      twoPow (unitPlaces + k) * twoPow (unitPlaces + k) := by
    rw [unitsPerOne]
    exact Nat.mul_le_mul hx.le (twoPow_le_of_le (by omega))
  have hround := roundRoot_le_of_onGrid (onGrid_twoPow _) hsquare
  have hfinite : (roundSqrt ((units x).natAbs * unitsPerOne)).isFinite := by
    rw [roundSqrt, isFinite_ofUnits_iff]
    exact hround.trans_lt (twoPow_lt_overflowUnits hk)
  rw [sqrt_of_units_pos hx.isFinite hpos]
  refine ⟨hfinite, ?_⟩
  rw [units_roundSqrt hfinite, Int.natAbs_natCast]
  exact hround

end AtMost

namespace AtLeast

theorem of_toInt? {n : Int} (h : x.toInt? = some n) (hn : n ≠ 0) : AtLeast 0 x := by
  rw [AtLeast, units_of_toInt? h, natAbs_mul_unitsPerOne, unitsPerOne]
  exact Nat.le_mul_of_pos_left _ (Int.natAbs_pos.2 hn)

theorem mono (h : AtLeast k x) (hkl : k ≤ l) : AtLeast l x :=
  (twoPow_le_of_le (by omega)).trans h

theorem ne_zero (h : AtLeast k x) : units x ≠ 0 := Int.natAbs_pos.1 ((twoPow_pos _).trans_le h)

theorem mul (hx : AtLeast j x) (hy : AtLeast k y) (h : (x * y).isFinite)
    (hl : j + k ≤ l ∧ l ≤ unitPlaces) : AtLeast l (x * y) := by
  rw [AtLeast, units_mul h, natAbs_nearestUnits]
  apply le_roundQuotient_of_onGrid (onGrid_twoPow _) unitsPerOne_pos
  calc twoPow (unitPlaces - l) * unitsPerOne = twoPow (unitPlaces - l + unitPlaces) := by
        rw [unitsPerOne, twoPow_add _ unitPlaces]
    _ ≤ twoPow (unitPlaces - j + (unitPlaces - k)) := twoPow_le_of_le (by omega)
    _ = twoPow (unitPlaces - j) * twoPow (unitPlaces - k) := twoPow_add _ _
    _ ≤ (units x).natAbs * (units y).natAbs := Nat.mul_le_mul hx hy
    _ = (units x * units y).natAbs := (Int.natAbs_mul _ _).symm

theorem div (hx : AtLeast j x) (hy : AtMost k y) (h0 : units y ≠ 0) (h : (x / y).isFinite)
    (hl : j + k ≤ l ∧ l ≤ unitPlaces) : AtLeast l (x / y) := by
  rw [AtLeast, units_div h hy.isFinite (isZero_of_units_ne h0), natAbs_nearestUnits,
    Int.natAbs_mul, Int.natAbs_mul, Int.natAbs_natCast, Int.natAbs_sign_of_ne_zero h0, Nat.mul_one]
  apply le_roundQuotient_of_onGrid (onGrid_twoPow _) (Int.natAbs_pos.2 h0)
  calc twoPow (unitPlaces - l) * (units y).natAbs
      ≤ twoPow (unitPlaces - l) * twoPow (unitPlaces + k) := Nat.mul_le_mul_left _ hy.le
    _ = twoPow (unitPlaces - l + (unitPlaces + k)) := (twoPow_add _ _).symm
    _ ≤ twoPow (unitPlaces - j + unitPlaces) := twoPow_le_of_le (by omega)
    _ = twoPow (unitPlaces - j) * unitsPerOne := by rw [unitsPerOne, twoPow_add _ unitPlaces]
    _ ≤ (units x).natAbs * unitsPerOne := Nat.mul_le_mul_right _ hx

/-- What is not below zero does not make a sum smaller. -/
theorem add (hx : AtLeast k x) (hx0 : 0 ≤ units x) (hy0 : 0 ≤ units y) (h : (x + y).isFinite) :
    AtLeast k (x + y) := by
  rw [AtLeast, units_add h, natAbs_nearestUnits]
  apply le_roundQuotient_of_onGrid (onGrid_twoPow _) Nat.one_pos
  rw [AtLeast] at hx
  omega

theorem sqrt (hx : AtLeast (2 * k) x) (hx0 : 0 ≤ units x) (h : x.sqrt.isFinite)
    (hk : 2 * k ≤ unitPlaces) : AtLeast k x.sqrt := by
  have hpos : 0 < units x := lt_of_le_of_ne hx0 hx.ne_zero.symm
  have hfinite : x.isFinite := by
    cases x with
    | nan => contradiction
    | infinite s => contradiction
    | finite => rfl
  rw [sqrt_of_units_pos hfinite hpos] at h ⊢
  rw [AtLeast, units_roundSqrt h, Int.natAbs_natCast]
  apply le_roundRoot_of_onGrid (onGrid_twoPow _)
  calc twoPow (unitPlaces - k) * twoPow (unitPlaces - k)
      = twoPow (unitPlaces - k + (unitPlaces - k)) := (twoPow_add _ _).symm
    _ = twoPow (unitPlaces - 2 * k + unitPlaces) := by
        congr 1
        omega
    _ = twoPow (unitPlaces - 2 * k) * unitsPerOne := by rw [unitsPerOne, twoPow_add _ unitPlaces]
    _ ≤ (units x).natAbs * unitsPerOne := Nat.mul_le_mul_right _ hx

end AtLeast

/-! ## Magnitudes with both bounds -/

theorem units_abs (x : Binary64) : units x.abs = (units x).natAbs := by
  cases x with
  | nan => rfl
  | infinite s => rfl
  | finite s n hn b =>
    show signedUnits false n = (signedUnits s n).natAbs
    cases s <;> simp

theorem units_zero_div (h : (x / y).isFinite) (hy : y.isFinite) (h0 : units y ≠ 0)
    (hx : units x = 0) : units (x / y) = 0 := by
  rw [units_div h hy (isZero_of_units_ne h0), hx, zero_mul, zero_mul]
  exact zero_mul _

/-- Zero, or of a magnitude from `2 ^ -k` to `2 ^ k`. -/
structure Within (k : Nat) (x : Binary64) : Prop where
  atMost : AtMost k x
  atLeast : units x = 0 ∨ AtLeast k x

namespace Within

theorem of_toInt? {n : Int} (h : x.toInt? = some n) (hn : |n| ≤ 2 ^ k) : Within k x := by
  refine ⟨.of_toInt? h hn, ?_⟩
  by_cases h0 : n = 0
  · exact Or.inl (by rw [units_of_toInt? h, h0, zero_mul])
  · exact Or.inr ((AtLeast.of_toInt? h h0).mono (Nat.zero_le k))

theorem abs (h : Within k x) : Within k x.abs := by
  have hunits := units_abs x
  refine ⟨⟨(isFinite_abs x).trans h.atMost.isFinite, ?_⟩, ?_⟩
  · rw [hunits, Int.natAbs_natCast]
    exact h.atMost.le
  · rw [AtLeast, hunits, Int.natAbs_natCast]
    exact h.atLeast.imp_left fun h0 => by rw [h0]; rfl

theorem unsignedZero (h : Within k x) : Within k x.unsignedZero := by
  cases hz : x.isZero with
  | false => rwa [unsignedZero_of_isZero hz]
  | true =>
    rw [unsignedZero_eq_zero hz]
    exact ⟨⟨rfl, Nat.zero_le _⟩, Or.inl rfl⟩

theorem div (hx : Within j x) (hy : Within k y) (h0 : units y ≠ 0) (h : j + k ≤ l ∧ l < 1024) :
    Within l (x / y) := by
  have hplaces : 1024 ≤ unitPlaces := by decide
  have hmost : AtMost l (x / y) :=
    hx.atMost.div hy.atMost.isFinite (hy.atLeast.resolve_left h0) h
  refine ⟨hmost, ?_⟩
  rcases hx.atLeast with hzero | hlow
  · exact Or.inl (units_zero_div hmost.isFinite hy.atMost.isFinite h0 hzero)
  · exact Or.inr (hlow.div hy.atMost h0 hmost.isFinite (by omega))

theorem sqrt (hx : Within k x) (h : 0 ≤ units x) (hk : k ≤ 512) : Within k x.sqrt := by
  have hplaces : 1024 ≤ unitPlaces := by decide
  have hmost := hx.atMost.sqrt h (by omega)
  refine ⟨hmost, ?_⟩
  rcases hx.atLeast with hzero | hlow
  · exact Or.inl (by rwa [sqrt_of_isZero (isZero_iff.2 ⟨hx.atMost.isFinite, hzero⟩)])
  · exact Or.inr ((hlow.mono (by omega)).sqrt h hmost.isFinite (by omega))

end Within

/-! ## Moduli -/

theorem units_mul_self_nonneg (h : (x * x).isFinite) : 0 ≤ units (x * x) := by
  rw [units_mul h]
  exact nearestUnits_nonneg (mul_self_nonneg _) _

theorem units_ofTwoPow (h : k < unitPlaces + 1024) :
    (ofTwoPow k).isFinite ∧ units (ofTwoPow k) = twoPow k := by
  have hrange : twoPow k < overflowUnits := by
    rw [overflowUnits]
    exact twoPow_lt_of_lt h
  rw [ofTwoPow, round_one (onGrid_twoPow k) hrange, units_finite, signedUnits_false]
  exact ⟨rfl, rfl⟩

section

variable {a b : Binary64}

theorem isFinite_correctedModulus (ha : AtMost k a) (hb : AtMost k b) (hlow : AtLeast k a)
    (hk : k ≤ 200) : (correctedModulus a b).isFinite := by
  have hplaces : 1024 ≤ unitPlaces := by decide
  have htwo : AtMost 1 (2 : Binary64) := .of_toInt? toInt?_two (by norm_num)
  have hfour : AtMost 2 (4 : Binary64) := .of_toInt? toInt?_four (by norm_num)
  have haa : AtMost (2 * k) (a * a) := ha.mul ha (by omega)
  have hbb : AtMost (2 * k) (b * b) := hb.mul hb (by omega)
  have hsum : AtMost (2 * k + 1) (a * a + b * b) := haa.add hbb (by omega)
  have haa0 := units_mul_self_nonneg haa.isFinite
  have hbb0 := units_mul_self_nonneg hbb.isFinite
  have hsum0 : 0 ≤ units (a * a + b * b) := by
    rw [units_add hsum.isFinite]
    exact nearestUnits_nonneg (by omega) _
  have hh : AtMost (2 * k + 1) (a * a + b * b).sqrt := hsum.sqrt hsum0 (by omega)
  have hhlow : AtLeast k (a * a + b * b).sqrt := by
    refine AtLeast.sqrt ?_ hsum0 hh.isFinite (by omega)
    refine AtLeast.add ?_ haa0 hbb0 hsum.isFinite
    exact hlow.mul hlow haa.isFinite (by omega)
  unfold correctedModulus
  dsimp only
  generalize (a * a + b * b).sqrt = h at *
  have h2h : AtMost (2 * k + 2) (2 * h) := htwo.mul hh (by omega)
  have h2hlow : AtLeast k (2 * h) :=
    AtLeast.mul (.of_toInt? toInt?_two (by decide)) hhlow h2h.isFinite (by omega)
  have hcorrect {e : Binary64} (he : AtMost (4 * k + 10) e) : (h - e / (2 * h)).isFinite := by
    have hquotient : AtMost (5 * k + 10) (e / (2 * h)) := he.div h2h.isFinite h2hlow (by omega)
    exact (hh.sub hquotient (l := 5 * k + 11) (by omega)).isFinite
  split
  · have hd : AtMost (2 * k + 2) (h - b) := hh.sub hb (by omega)
    have hleft : AtMost (2 * k + 4) (2 * (h - b) - a) :=
      AtMost.sub (htwo.mul hd (l := 2 * k + 3) (by omega)) ha (by omega)
    have hright : AtMost (2 * k + 3) (h - b - 2 * (a - b)) := by
      have hab : AtMost (k + 1) (a - b) := ha.sub hb (by omega)
      exact hd.sub (htwo.mul hab (l := k + 2) (by omega)) (by omega)
    apply hcorrect
    refine AtMost.add (ha.mul hleft (l := 3 * k + 4) (by omega))
      (hright.mul hd (l := 4 * k + 5) (by omega)) (by omega)
  · have hd : AtMost (2 * k + 2) (h - a) := hh.sub ha (by omega)
    have h2d : AtMost (2 * k + 3) (2 * (h - a)) := htwo.mul hd (by omega)
    have hdifference : AtMost (k + 2) (a - 2 * b) :=
      ha.sub (htwo.mul hb (l := k + 1) (by omega)) (by omega)
    have hfactor : AtMost (2 * k + 5) (4 * (h - a) - b) :=
      AtMost.sub (hfour.mul hd (l := 2 * k + 4) (by omega)) hb (by omega)
    have hright : AtMost (4 * k + 6) ((4 * (h - a) - b) * b + (h - a) * (h - a)) :=
      AtMost.add (hfactor.mul hb (l := 3 * k + 5) (by omega))
        (hd.mul hd (l := 4 * k + 4) (by omega)) (by omega)
    apply hcorrect
    exact AtMost.add (h2d.mul hdifference (l := 3 * k + 5) (by omega)) hright (by omega)

/-- With parts neither very large nor very small no scaling is done. -/
theorem isFinite_orderedModulus (ha : Within k a) (hb : Within k b) (hba : units b ≤ units a)
    (hb0 : 0 ≤ units b) (hk : k ≤ 200) : (orderedModulus a b).isFinite := by
  have hplaces : 1024 ≤ unitPlaces := by decide
  have hfa := ha.atMost.isFinite
  have hfb := hb.atMost.isFinite
  unfold orderedModulus
  split
  · exact (ha.atMost.add hb.atMost (l := k + 1) (by omega)).isFinite
  rename_i hlost
  have hblow : AtLeast k b := by
    refine hb.atLeast.resolve_left fun h0 => hlost ?_
    obtain ⟨hfinite, hunits⟩ := units_ofTwoPow (k := unitPlaces - 54) (by omega)
    have hlow : AtLeast 54 lostPart := by
      rw [AtLeast, lostPart, hunits, Int.natAbs_natCast]
    have hbound : AtMost (k + 54) (b / lostPart) := hb.atMost.div hfinite hlow (by omega)
    rw [le_iff_units hbound.isFinite hfa,
      units_zero_div hbound.isFinite hfinite hlow.ne_zero h0]
    omega
  have halow : AtLeast k a := by
    unfold AtLeast at hblow ⊢
    omega
  have hlarge : ¬ largePart < a := by
    obtain ⟨hfinite, hunits⟩ := units_ofTwoPow (k := unitPlaces + 511) (by omega)
    rw [largePart, lt_iff_units hfinite hfa, hunits]
    have hle := ha.atMost.le
    have := twoPow_le_of_le (j := unitPlaces + k) (k := unitPlaces + 511) (by omega)
    omega
  have hsmall : ¬ b < smallPart := by
    obtain ⟨hfinite, hunits⟩ := units_ofTwoPow (k := unitPlaces - 459) (by omega)
    rw [smallPart, lt_iff_units hfb hfinite, hunits]
    unfold AtLeast at hblow
    have := twoPow_le_of_le (j := unitPlaces - 459) (k := unitPlaces - k) (by omega)
    omega
  rw [if_neg hlarge, if_neg hsmall]
  exact isFinite_correctedModulus ha.atMost hb.atMost halow hk

/-- A modulus is finite if no part is very large or very small. -/
theorem isFinite_hypot (hx : Within k x) (hy : Within k y) (hk : k ≤ 200) :
    (hypot x y).isFinite := by
  have notInfinite {z : Binary64} (hz : z.isFinite) (s : Bool) : z ≠ infinite s := by
    rintro rfl
    contradiction
  have hfx := hx.abs.atMost.isFinite
  have hfy := hy.abs.atMost.isFinite
  rw [hypot_of_not_infinite (notInfinite hx.atMost.isFinite) (notInfinite hy.atMost.isFinite)]
  split
  · rename_i hlt
    rw [lt_iff_units hfx hfy] at hlt
    exact isFinite_orderedModulus hy.abs hx.abs hlt.le (units_abs x ▸ Int.natCast_nonneg _) hk
  · rename_i hle
    rw [lt_iff_units hfx hfy] at hle
    exact isFinite_orderedModulus hx.abs hy.abs (Int.not_lt.1 hle)
      (units_abs y ▸ Int.natCast_nonneg _) hk

end

end PolySolve.Binary64
