import PolySolve.Plot
import PolySolve.Proofs.Plot.Samples
import PolySolve.Proofs.Solution.ConjugateRoots
import PolySolve.Proofs.Solution.Residual

/-!
# The range around the roots

A plot shows the real roots with a margin on both sides. With a margin of one or more an end of the
range has a magnitude of one or more too, whether or not the margin is lost in rounding beside the
roots; so the samples of the range ascend from end to end, and the roots are between the ends.

* `least_spec`, `greatest_spec`: the least and the greatest of finite values;
* `Range.proper_of_margins`: a range with margins;
* `Polynomial.isFinite_of_solve`, `Polynomial.eq_outcome_of_solve`: what any polynomial is reported
  to have, with coefficients that are zero or not;
* `Covers`, `exists_rangeOf`: the range around the roots of any outcome;
* `rangeOf_samples`: its samples.
-/

namespace PolySolve

open Binary64

-- The elaborator must not evaluate these powers of two.
attribute [local irreducible] overflowUnits unitsPerOne

namespace Plot

variable {x y w : Binary64} {xs : List Binary64}

/-! ## The least and the greatest value -/

/-- A fold that keeps one of two values with the lower key ends at the lowest key. -/
theorem foldl_le {f : Binary64 → Binary64 → Binary64} (key : Binary64 → ℚ)
    (hf : ∀ x y, x.isFinite → y.isFinite →
      (f x y).isFinite ∧ key (f x y) ≤ key x ∧ key (f x y) ≤ key y)
    (h : ∀ y ∈ x :: xs, y.isFinite) :
    (xs.foldl f x).isFinite ∧ ∀ y ∈ x :: xs, key (xs.foldl f x) ≤ key y := by
  induction xs generalizing x with
  | nil => exact ⟨h x List.mem_cons_self, by simp⟩
  | cons z xs ih =>
    obtain ⟨hx, hz, hxs⟩ : x.isFinite ∧ z.isFinite ∧ ∀ y ∈ xs, y.isFinite := by simpa using h
    obtain ⟨hfinite, hleft, hright⟩ := hf x z hx hz
    obtain ⟨hlast, hle⟩ := ih (List.forall_mem_cons.2 ⟨hfinite, hxs⟩)
    obtain ⟨hstep, hrest⟩ := List.forall_mem_cons.1 hle
    exact ⟨hlast, List.forall_mem_cons.2
      ⟨hstep.trans hleft, List.forall_mem_cons.2 ⟨hstep.trans hright, hrest⟩⟩⟩

theorem least_spec (h : ∀ y ∈ x :: xs, y.isFinite) :
    (least x xs).isFinite ∧ ∀ y ∈ x :: xs, value (least x xs) ≤ value y := by
  refine foldl_le value (fun x y hx hy => ?_) h
  split
  · rename_i hlt
    rw [lt_iff_value hy hx] at hlt
    exact ⟨hy, hlt.le, le_refl _⟩
  · rename_i hle
    rw [lt_iff_value hy hx, not_lt] at hle
    exact ⟨hx, le_refl _, hle⟩

theorem greatest_spec (h : ∀ y ∈ x :: xs, y.isFinite) :
    (greatest x xs).isFinite ∧ ∀ y ∈ x :: xs, value y ≤ value (greatest x xs) := by
  have hkept : ∀ x y : Binary64, x.isFinite → y.isFinite →
      (if x < y then y else x).isFinite ∧ -value (if x < y then y else x) ≤ -value x ∧
        -value (if x < y then y else x) ≤ -value y := fun x y hx hy => by
    split
    · rename_i hlt
      rw [lt_iff_value hx hy] at hlt
      exact ⟨hy, neg_le_neg hlt.le, le_refl _⟩
    · rename_i hle
      rw [lt_iff_value hx hy, not_lt] at hle
      exact ⟨hx, le_refl _, neg_le_neg hle⟩
  obtain ⟨hfinite, hle⟩ := foldl_le (fun x => -value x) hkept h
  exact ⟨hfinite, fun y hy => neg_le_neg_iff.1 (hle y hy)⟩

/-! ## Margins -/

theorem value_sub_margin_le (hx : x.isFinite) (hw : 0 ≤ value w) (h : (x - w).isFinite) :
    value (x - w) ≤ value x := by
  have hsum : (x + -w).isFinite := h
  exact value_add_le hsum hx (by rw [value_neg]; linarith)

theorem le_value_add_margin (hx : x.isFinite) (hw : 0 ≤ value w) (h : (x + w).isFinite) :
    value x ≤ value (x + w) :=
  le_value_add h hx (by linarith)

theorem neg_ne_neg_zero (hw : value w ≠ 0) : -w ≠ -zero := fun heq => by
  have hvalue : value (-w) = value (-zero) := by rw [heq]
  rw [value_neg, value_neg, value_zero, neg_inj] at hvalue
  exact hw hvalue

/-- A range with margins of one or more on both sides. -/
theorem Range.proper_of_margins (hx : x.isFinite) (hy : y.isFinite) (hxy : value x ≤ value y)
    (hw : 1 ≤ value w) (hlow : (x - w).isFinite) (hhigh : (y + w).isFinite)
    (hwidth : (Range.mk (x - w) (y + w)).width.isFinite) :
    (Range.mk (x - w) (y + w)).Proper where
  low := hlow
  high := hhigh
  width := hwidth
  le := by
    have hw0 : 0 ≤ value w := by linarith
    exact (value_sub_margin_le hx hw0 hlow).trans (hxy.trans (le_value_add_margin hy hw0 hhigh))
  far := by
    -- At one of the two ends the margin leads away from zero.
    rcases le_total (value x) 0 with hneg | hpos
    · have hend : value (x - w) ≤ value (-1) := by
        have hsum : (x + -w).isFinite := hlow
        refine value_add_le hsum ((isFinite_neg _).trans isFinite_one) ?_
        rw [value_neg, value_neg, value_one]
        linarith
      rw [value_neg, value_one] at hend
      exact Or.inl (le_abs.2 (Or.inr (by linarith)))
    · have hend : value 1 ≤ value (y + w) := by
        refine le_value_add hhigh isFinite_one ?_
        rw [value_one]
        linarith
      rw [value_one] at hend
      exact Or.inr (le_abs.2 (Or.inl hend))
  low_ne := by
    have hne : -w + x ≠ -zero := add_ne (neg_ne_neg_zero (by linarith)) x
    rwa [add_swap] at hne

/-- A range of the margins alone. -/
theorem Range.proper_around_zero (hw : 1 ≤ value w) (hlow : (-w).isFinite) (hhigh : w.isFinite)
    (hwidth : (Range.mk (-w) w).width.isFinite) : (Range.mk (-w) w).Proper where
  low := hlow
  high := hhigh
  width := hwidth
  le := by
    show value (-w) ≤ value w
    rw [value_neg]
    linarith
  far := Or.inr (le_abs.2 (Or.inl hw))
  low_ne := neg_ne_neg_zero (by linarith)

end Plot

/-! ## Outcomes -/

namespace Root

theorem isFinite_of_modulus {r : Root} {m : Binary64} (h : r.modulus = .ok m) (hm : m.isFinite) :
    r.isFinite := by
  cases r with
  | real x =>
    obtain rfl : x.abs = m := Except.ok.inj h
    rwa [isFinite_abs] at hm
  | complex z =>
    have hmodulus : modulus (complex z) =
        if z.isFinite && !z.modulus.isFinite then .error .modulusOverflow else .ok z.modulus := rfl
    rw [hmodulus] at h
    split at h
    · contradiction
    · obtain rfl : z.modulus = m := Except.ok.inj h
      exact Complex.isFinite_of_modulus hm

theorem isFinite_of_allFinite {rs : List Root} (h : allFinite rs = .ok true) :
    ∀ r ∈ rs, r.isFinite := by
  induction rs with
  | nil => exact List.forall_mem_nil _
  | cons r rs ih =>
    rw [allFinite] at h
    cases hm : r.modulus with
    | error f =>
      rw [hm] at h
      contradiction
    | ok m =>
      rw [hm] at h
      change (if m.isFinite then allFinite rs else .ok false) = _ at h
      split at h
      · rename_i hfinite
        exact List.forall_mem_cons.2 ⟨isFinite_of_modulus hm hfinite, ih h⟩
      · contradiction

end Root

namespace Polynomial

variable {p : Polynomial} {o : Outcome}

/-- Whatever coefficients a polynomial has, its reported roots are finite. -/
theorem isFinite_of_solve (h : p.solve = .ok o) : ∀ r ∈ o.roots, r.isFinite := by
  apply Root.isFinite_of_allFinite
  have hby := solveByDegree_of_solve h
  unfold solve at h
  split at h
  · rw [hby] at h
    change (Root.allFinite o.roots).bind _ = _ at h
    cases hf : Root.allFinite o.roots with
    | error f =>
      rw [hf] at h
      contradiction
    | ok finite =>
      rw [hf] at h
      cases finite with
      | true => rfl
      | false => contradiction
  · contradiction

theorem isZero_two_mul_of_isZero {x : Binary64} (h : x.isZero) : (2 * x).isZero := by
  obtain ⟨s, rfl⟩ := exists_of_isZero h
  obtain ⟨h₂, b₂, two⟩ := exists_two
  rw [two]
  exact isZero_round_zero (false != s) unitsPerOne

/-- A quadratic formula without a leading coefficient divides by zero, or does not come to that. -/
theorem solveQuadratic_of_isZero (h : (p.coefficient 2).isZero) : p.solveQuadratic ≠ .ok o := by
  have hz := isZero_two_mul_of_isZero h
  unfold solveQuadratic divide
  simp only [hz, bind, Except.bind, if_true]
  intro hok
  repeat' split at hok
  all_goals contradiction

/-- Whatever coefficients a polynomial has, its checks do not change the outcome. -/
theorem eq_outcome_of_solve (h : p.solve = .ok o) : o = p.outcome := by
  have hby := solveByDegree_of_solve h
  unfold solveByDegree at hby
  unfold outcome
  by_cases hhigh : 2 < p.degree
  · rw [if_pos hhigh] at hby ⊢
    exact (Except.ok.inj hby).symm
  rw [if_neg hhigh] at hby ⊢
  by_cases h2 : p.degree = 2
  · rw [if_pos h2] at hby ⊢
    cases hz : (p.coefficient 2).isZero with
    | true => exact absurd hby (solveQuadratic_of_isZero hz)
    | false =>
      rw [solveQuadratic_eq hz] at hby
      split at hby
      · exact (Except.ok.inj hby).symm
      · contradiction
  rw [if_neg h2] at hby ⊢
  by_cases h1 : p.degree = 1
  · rw [if_pos h1] at hby ⊢
    exact (Except.ok.inj hby).symm
  · rw [if_neg h1] at hby ⊢
    exact (Except.ok.inj hby).symm

end Polynomial

namespace Plot

variable {p : Polynomial} {o : Outcome} {w : Binary64}

theorem mem_realRoots_iff {x : Binary64} : x ∈ o.realRoots ↔ Root.real x ∈ o.roots := by
  refine ⟨fun hx => ?_, fun hx => List.mem_filterMap.2 ⟨_, hx, rfl⟩⟩
  obtain ⟨r, hr, hreal⟩ := List.mem_filterMap.1 hx
  cases r with
  | real y => rwa [← Option.some.inj hreal]
  | complex z => contradiction

/-- Unless it is out of range itself, the range is a proper one, with all real roots in it. -/
def Covers (o : Outcome) (r : Range) : Prop :=
  r.low.isFinite → r.high.isFinite → r.width.isFinite →
    r.Proper ∧ ∀ x ∈ o.realRoots, r.low ≤ x ∧ x ≤ r.high

theorem one_le_value (hw : (1 : Binary64) ≤ w) (hf : w.isFinite) : 1 ≤ value w := by
  rwa [le_iff_value isFinite_one hf, value_one] at hw

theorem covers_real {x : Binary64} {xs : List Binary64} (hreals : o.realRoots = x :: xs)
    (h : ∀ y ∈ x :: xs, y.isFinite) (hw : (1 : Binary64) ≤ w) :
    Covers o ⟨least x xs - w, greatest x xs + w⟩ := by
  intro hlow hhigh hwidth
  obtain ⟨hleast, hle⟩ := least_spec h
  obtain ⟨hgreatest, hge⟩ := greatest_spec h
  have hmargin := one_le_value hw (isFinite_of_sub hlow).2
  have hends : value (least x xs) ≤ value (greatest x xs) :=
    (hle x List.mem_cons_self).trans (hge x List.mem_cons_self)
  refine ⟨Range.proper_of_margins hleast hgreatest hends hmargin hlow hhigh hwidth,
    fun y hy => ?_⟩
  rw [hreals] at hy
  have hw0 : 0 ≤ value w := by linarith
  rw [le_iff_value hlow (h y hy), le_iff_value (h y hy) hhigh]
  exact ⟨(value_sub_margin_le hleast hw0 hlow).trans (hle y hy),
    (hge y hy).trans (le_value_add_margin hgreatest hw0 hhigh)⟩

theorem covers_of_proper {r : Range} (hreals : o.realRoots = [])
    (h : r.low.isFinite → r.high.isFinite → r.width.isFinite → r.Proper) : Covers o r := by
  refine fun hlow hhigh hwidth => ⟨h hlow hhigh hwidth, fun x hx => ?_⟩
  rw [hreals] at hx
  contradiction

theorem covers_realPart {root : Root} (hroot : root.isFinite) (hreals : o.realRoots = [])
    (hw : (1 : Binary64) ≤ w) : Covers o ⟨root.realPart - w, root.realPart + w⟩ := by
  refine covers_of_proper hreals fun hlow hhigh hwidth => ?_
  have hpart : root.realPart.isFinite := by
    cases root with
    | real x => exact hroot
    | complex z => exact (Bool.and_eq_true_iff.1 hroot).1
  exact Range.proper_of_margins hpart hpart (le_refl _)
    (one_le_value hw (isFinite_of_sub hlow).2) hlow hhigh hwidth

theorem covers_margins (hreals : o.realRoots = []) (hw : (1 : Binary64) ≤ w) :
    Covers o ⟨-w, w⟩ :=
  covers_of_proper hreals fun hlow hhigh hwidth =>
    Range.proper_around_zero (one_le_value hw hhigh) hlow hhigh hwidth

/-- There is a range around the roots of any outcome, and it covers them if the margin is one or
more. -/
theorem exists_rangeOf (h : p.solve = .ok o) (hw : (1 : Binary64) ≤ w) :
    ∃ r, rangeOf o w = .ok r ∧ Covers o r := by
  have hroots := Polynomial.isFinite_of_solve h
  unfold rangeOf
  split
  · rename_i x xs hreals
    exact ⟨_, rfl, covers_real hreals
      (fun y hy => hroots (.real y) (mem_realRoots_iff.1 (hreals ▸ hy))) hw⟩
  rename_i hreals
  split
  · rename_i hkind
    split
    · rename_i hempty
      rw [Polynomial.eq_outcome_of_solve h] at hkind hempty
      obtain ⟨-, -, -, houtcome⟩ := Polynomial.outcome_of_complexPair hkind
      rw [houtcome] at hempty
      contradiction
    · rename_i root rest heq
      have hroot : root ∈ o.roots := heq ▸ List.mem_cons_self
      exact ⟨_, rfl, covers_realPart (hroots root hroot) hreals hw⟩
  · exact ⟨_, rfl, covers_margins hreals hw⟩

/-- The samples around the roots of any outcome: 400 finite ones, in ascending order from the lower
end to the upper one, with all real roots between them. -/
theorem rangeOf_samples (h : p.solve = .ok o) (hw : (1 : Binary64) ≤ w) :
    ∃ r, rangeOf o w = .ok r ∧
      (r.low.isFinite → r.high.isFinite → r.width.isFinite →
        r.samples.length = 400 ∧ (∀ x ∈ r.samples, x.isFinite ∧ x ≤ r.high) ∧
          r.samples.Pairwise (· ≤ ·) ∧ r.samples.head? = some r.low ∧
          r.samples.getLast? = some r.high ∧
          ∀ x, Root.real x ∈ o.roots → r.low ≤ x ∧ x ≤ r.high) := by
  obtain ⟨r, hr, hspec⟩ := exists_rangeOf h hw
  refine ⟨r, hr, fun hlow hhigh hwidth => ?_⟩
  obtain ⟨hproper, hcovers⟩ := hspec hlow hhigh hwidth
  refine ⟨r.length_samples, fun x hx => ?_, hproper.pairwise_samples, hproper.head?_samples,
    r.getLast?_samples, fun x hx => hcovers x (mem_realRoots_iff.2 hx)⟩
  obtain ⟨hfinite, -, hle⟩ := hproper.mem_samples hx
  exact ⟨hfinite, hle⟩

/-- The terms of `x^2 - 3*x + 2`. -/
def twoRootTerms : List Term := [⟨1, 2⟩, ⟨-3, 1⟩, ⟨2, 0⟩]

/-- A root beside which a margin of 5 is lost. -/
def farRoot : Binary64 := ofTwoPow (unitPlaces + 60)

-- Nor must it evaluate this one.
attribute [local irreducible] farRoot

/-- The terms of `x - 2^60`. -/
def farRootTerms : List Term := [⟨1, 1⟩, ⟨-farRoot, 0⟩]

/-- The range around two roots has samples on both sides of them. The one around a far root has no
width, and yet 400 samples, and the root is not outside of it. -/
theorem rangeOf_samples_rootsFarAndNear :
    (∃ o r, (Polynomial.reduce twoRootTerms).solve = .ok o ∧ o.roots = [.real 2, .real 1] ∧
      (1 : Binary64) ≤ 5 ∧ rangeOf o 5 = .ok r ∧
      r.low.isFinite ∧ r.high.isFinite ∧ r.width.isFinite ∧ r.samples.length = 400 ∧
      r.samples.head? = some (-4) ∧ r.samples.getLast? = some 7 ∧
      (r.low ≤ 2 ∧ 2 ≤ r.high) ∧ r.low ≤ 1 ∧ 1 ≤ r.high) ∧
    ∃ o r, (Polynomial.reduce farRootTerms).solve = .ok o ∧ o.roots = [.real farRoot] ∧
      (1 : Binary64) ≤ 5 ∧ rangeOf o 5 = .ok r ∧
      r.low.isFinite ∧ r.high.isFinite ∧ r.width.isZero ∧
      r.samples.length = 400 ∧ r.samples.Pairwise (· ≤ ·) ∧ r.low ≤ farRoot ∧ farRoot ≤ r.high := by
  have hw : (1 : Binary64) ≤ 5 := by decide +kernel
  constructor
  · have solved : (Polynomial.reduce twoRootTerms).solve =
        .ok ⟨.pair, 2, some 1, [.real 2, .real 1]⟩ := by decide +kernel
    have hrange : rangeOf ⟨.pair, 2, some 1, [.real 2, .real 1]⟩ 5 = .ok ⟨-4, 7⟩ := by
      decide +kernel
    have hlow : (-4 : Binary64).isFinite := by decide +kernel
    have hhigh : (7 : Binary64).isFinite := by decide +kernel
    have hwidth : (Range.mk (-4) 7).width.isFinite := by decide +kernel
    obtain ⟨r, hr, hspec⟩ := rangeOf_samples solved hw
    rw [hrange] at hr
    obtain rfl : Range.mk (-4) 7 = r := Except.ok.inj hr
    obtain ⟨hlength, -, -, hhead, hlast, hcovers⟩ := hspec hlow hhigh hwidth
    exact ⟨_, _, solved, rfl, hw, hrange, hlow, hhigh, hwidth, hlength, hhead, hlast,
      hcovers 2 List.mem_cons_self, hcovers 1 (List.mem_cons_of_mem _ List.mem_cons_self)⟩
  · have solved : (Polynomial.reduce farRootTerms).solve =
        .ok ⟨.single, 1, none, [.real farRoot]⟩ := by decide +kernel
    have hrange : rangeOf ⟨.single, 1, none, [.real farRoot]⟩ 5 = .ok ⟨farRoot, farRoot⟩ := by
      decide +kernel
    have hend : farRoot.isFinite := by decide +kernel
    have hwidth : (Range.mk farRoot farRoot).width.isZero := by decide +kernel
    obtain ⟨r, hr, hspec⟩ := rangeOf_samples solved hw
    rw [hrange] at hr
    obtain rfl : Range.mk farRoot farRoot = r := Except.ok.inj hr
    obtain ⟨hlength, -, hascending, -, -, hcovers⟩ := hspec hend hend (isFinite_of_isZero hwidth)
    obtain ⟨hlow, hhigh⟩ := hcovers farRoot (List.mem_singleton_self _)
    exact ⟨_, _, solved, rfl, hw, hrange, hend, hend, hwidth, hlength, hascending, hlow, hhigh⟩

end Plot

end PolySolve
