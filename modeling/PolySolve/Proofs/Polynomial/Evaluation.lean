import Mathlib.Algebra.BigOperators.Intervals
import Mathlib.Algebra.BigOperators.Ring.Finset
import PolySolve.Polynomial.Evaluation
import PolySolve.Proofs.Binary64.Whole
import PolySolve.Proofs.Polynomial.Reduction

/-!
# Exact values

A polynomial is evaluated over all exponents up to its degree, with a zero where no
coefficient is stored. If the coefficients are whole numbers, the value at a whole
number is the sum of the stored terms, and it is found without rounding as long as
the magnitudes of these terms together are at most `2 ^ 53`: this bounds each step
of Horner's rule, whose products and sums are parts of the terms.

* `horner`, `toInt?_foldr`: Horner's rule in exact and in rounded arithmetic;
* `horner_map_range`: what the rule sums up;
* `sum_range_coefficient`: exponents without a stored coefficient do not count;
* `evaluate_whole`: the value is the exact one.
-/

namespace PolySolve

namespace Binary64

/-- The whole number that a value is, and 0 if it is none. -/
def whole (x : Binary64) : Int := x.toInt?.getD 0

theorem whole_of_toInt? {x : Binary64} {n : Int} (h : x.toInt? = some n) : x.whole = n := by
  rw [whole, h]
  rfl

@[simp] theorem whole_zero : whole zero = 0 := whole_of_toInt? toInt?_zero

end Binary64

namespace Polynomial

open Binary64

-- The elaborator must not evaluate these powers of two.
attribute [local irreducible] overflowUnits unitsPerOne

variable {n : Int}

/-! ## Horner's rule -/

/-- Horner's rule over whole coefficients, the constant first. -/
def horner (cs : List Int) (n : Int) : Int := cs.foldr (fun c y => y * n + c) 0

theorem horner_cons (c : Int) (cs : List Int) (n : Int) :
    horner (c :: cs) n = horner cs n * n + c := rfl

theorem abs_horner_le (cs : List Int) (n : Int) : |horner cs n| ≤ horner (cs.map abs) |n| := by
  induction cs with
  | nil => exact abs_zero.le
  | cons c cs ih =>
    rw [List.map_cons, horner_cons, horner_cons]
    calc |horner cs n * n + c| ≤ |horner cs n * n| + |c| := abs_add_le _ _
      _ = |horner cs n| * |n| + |c| := by rw [abs_mul]
      _ ≤ horner (cs.map abs) |n| * |n| + |c| :=
          Int.add_le_add_right (Int.mul_le_mul_of_nonneg_right ih (abs_nonneg n)) _

theorem horner_map_abs_nonneg (cs : List Int) (n : Int) : 0 ≤ horner (cs.map abs) |n| :=
  (abs_nonneg _).trans (abs_horner_le cs n)

/-- What bounds a value bounds the step before it: with a number other than zero the magnitude does
not fall, and at zero it is that of a single coefficient. -/
theorem horner_map_abs_le {c : Int} {cs : List Int} {m : Int} (hcs : ∀ d ∈ cs, |d| ≤ m)
    (hm : 0 ≤ m) (h : horner ((c :: cs).map abs) |n| ≤ m) : horner (cs.map abs) |n| ≤ m := by
  by_cases h0 : n = 0
  · subst h0
    cases cs with
    | nil => exact hm
    | cons d ds =>
      rw [List.map_cons, horner_cons, abs_zero, mul_zero, Int.zero_add]
      exact hcs d List.mem_cons_self
  · have hnonneg := horner_map_abs_nonneg cs n
    have hstep := le_mul_of_one_le_right hnonneg (Int.one_le_abs h0)
    have habs := abs_nonneg c
    rw [List.map_cons, horner_cons] at h
    omega

/-- No step of Horner's rule is rounded. -/
theorem toInt?_foldr {x : Binary64} (hx : x.toInt? = some n) {xs : List Binary64} {cs : List Int}
    (hxs : List.Forall₂ (fun x c => x.toInt? = some c) xs cs) (hcs : ∀ c ∈ cs, |c| ≤ 2 ^ 53)
    (hbound : horner (cs.map abs) |n| ≤ 2 ^ 53) :
    (xs.foldr (fun c y => y * x + c) zero).toInt? = some (horner cs n) := by
  induction hxs with
  | nil => exact toInt?_zero
  | @cons y c ys cs hy _ ih =>
    have hrest : ∀ d ∈ cs, |d| ≤ 2 ^ 53 := fun d hd => hcs d (List.mem_cons_of_mem _ hd)
    have hvalue := ih hrest (horner_map_abs_le hrest (by norm_num) hbound)
    rw [List.map_cons, horner_cons] at hbound
    have hproduct : |horner cs n * n| ≤ horner (cs.map abs) |n| * |n| := by
      rw [abs_mul]
      exact mul_le_mul_of_nonneg_right (abs_horner_le cs n) (abs_nonneg n)
    have hsum := abs_add_le (horner cs n * n) c
    have habs := abs_nonneg c
    rw [List.foldr_cons, horner_cons]
    exact toInt?_add (toInt?_mul hvalue hx (by omega)) hy (by omega)

theorem horner_map_range (f : Nat → Int) (k : Nat) (n : Int) :
    horner ((List.range k).map f) n = ∑ e ∈ Finset.range k, f e * n ^ e := by
  induction k generalizing f with
  | zero => rfl
  | succ k ih =>
    rw [List.range_succ_eq_map, List.map_cons, List.map_map, horner_cons, ih (f ∘ Nat.succ),
      Finset.sum_range_succ', pow_zero, mul_one, Finset.sum_mul]
    simp only [Function.comp_apply, Nat.succ_eq_add_one, pow_succ, mul_assoc]

/-! ## Stored terms -/

/-- A sum over the exponents below `k` is one over the stored terms: where nothing is stored there is
nothing to add. -/
theorem sum_range_find? {w : Binary64 → Int} (hw : w zero = 0) {ts : List Term}
    (hts : Term.Ascending ts) {k : Nat} (hk : ∀ t ∈ ts, 0 ≤ t.exponent ∧ t.exponent < k) (m : Int) :
    ∑ e ∈ Finset.range k, w ((Term.find? e ts).getD zero) * m ^ e =
      (ts.map fun t => w t.coefficient * m ^ t.exponent.toNat).sum := by
  induction ts with
  | nil => exact Finset.sum_eq_zero fun e _ => by rw [Term.find?, Option.getD_none, hw, zero_mul]
  | cons t ts ih =>
    obtain ⟨ht, hascending⟩ := List.pairwise_cons.1 hts
    obtain ⟨hnonneg, hlt⟩ := hk t List.mem_cons_self
    have hsplit : ∀ e ∈ Finset.range k, w ((Term.find? e (t :: ts)).getD zero) * m ^ e =
        (if e = t.exponent.toNat then w t.coefficient * m ^ t.exponent.toNat else 0) +
          w ((Term.find? e ts).getD zero) * m ^ e := fun e _ => by
      rw [Term.find?]
      by_cases he : t.exponent = e
      · have hnone : Term.find? e ts = none :=
          Term.find?_eq_none_of_lt fun u hu => he ▸ ht u hu
        have hnat : e = t.exponent.toNat := by omega
        rw [if_pos he, if_pos hnat, hnone, Option.getD_some, Option.getD_none, hw, zero_mul,
          add_zero, hnat]
      · rw [if_neg he, if_neg (by omega), Int.zero_add]
    rw [Finset.sum_congr rfl hsplit, Finset.sum_add_distrib, Finset.sum_ite_eq',
      if_pos (Finset.mem_range.2 (by omega)),
      ih hascending fun u hu => hk u (List.mem_cons_of_mem _ hu), List.map_cons, List.sum_cons]

/-- The exact value at a whole number, the sum of the stored terms. -/
def wholeValue (p : Polynomial) (n : Int) : Int :=
  (p.terms.map fun t => t.coefficient.whole * n ^ t.exponent.toNat).sum

/-- The magnitudes of the stored terms at a whole number, together. -/
def wholeMagnitude (p : Polynomial) (n : Int) : Int :=
  (p.terms.map fun t => |t.coefficient.whole| * |n| ^ t.exponent.toNat).sum

/-- No exponent is negative and the coefficients are whole numbers of 53 bits. -/
structure HasWholeTerms (p : Polynomial) : Prop where
  exponents : ∀ t ∈ p.terms, 0 ≤ t.exponent
  coefficients : ∀ t ∈ p.terms, ∃ c, t.coefficient.toInt? = some c ∧ |c| ≤ 2 ^ 53

variable {p : Polynomial}

/-- A coefficient that is not stored is a whole number too. -/
theorem HasWholeTerms.coefficient (h : p.HasWholeTerms) (e : Int) :
    (p.coefficient e).toInt? = some (p.coefficient e).whole ∧ |(p.coefficient e).whole| ≤ 2 ^ 53 := by
  obtain ⟨c, hc, hle⟩ : ∃ c, (p.coefficient e).toInt? = some c ∧ |c| ≤ 2 ^ 53 := by
    rcases p.coefficient_eq_or e with ⟨t, ht, -, he⟩ | ⟨-, he⟩
    · rw [he]
      exact h.coefficients t ht
    · rw [he]
      exact ⟨0, toInt?_zero, by norm_num⟩
  rw [whole_of_toInt? hc]
  exact ⟨hc, hle⟩

theorem lt_of_mem_terms {t : Term} (ht : t ∈ p.terms) : t.exponent < p.degree + 1 := by
  rcases p.isTopExponent_degree with ⟨hnil, -⟩ | ⟨-, htop⟩
  · rw [hnil] at ht
    contradiction
  · exact Int.lt_add_one_of_le (htop t ht)

/-- The dense coefficients and the stored terms have the same sum. -/
theorem sum_range_coefficient (h : p.HasWholeTerms) {w : Binary64 → Int} (hw : w zero = 0)
    (m : Int) :
    ∑ e ∈ Finset.range (p.degree + 1).toNat, w (p.coefficient e) * m ^ e =
      (p.terms.map fun t => w t.coefficient * m ^ t.exponent.toNat).sum := by
  refine sum_range_find? hw p.ascending (fun t ht => ⟨h.exponents t ht, ?_⟩) m
  have hnonneg := h.exponents t ht
  have hlt := lt_of_mem_terms ht
  omega

/-- The value at a whole number is exact if the magnitudes of the stored terms together are at most
`2 ^ 53`, whatever gaps there are between the exponents. -/
theorem evaluate_whole (h : p.HasWholeTerms) {x : Binary64} (hx : x.toInt? = some n)
    (hbound : p.wholeMagnitude n ≤ 2 ^ 53) :
    (p.evaluate x).toInt? = some (p.wholeValue n) := by
  have hvalue := sum_range_coefficient h whole_zero n
  have hmagnitude := sum_range_coefficient h (w := fun c => |c.whole|) (by simp) |n|
  rw [← horner_map_range fun e : Nat => (p.coefficient e).whole] at hvalue
  rw [← horner_map_range fun e : Nat => |(p.coefficient e).whole|] at hmagnitude
  rw [wholeValue, ← hvalue]
  apply toInt?_foldr hx
  · rw [dense, List.forall₂_map_left_iff, List.forall₂_map_right_iff, List.forall₂_same]
    exact fun e _ => (h.coefficient e).1
  · intro c hc
    obtain ⟨e, -, rfl⟩ := List.mem_map.1 hc
    exact (h.coefficient e).2
  · rw [List.map_map]
    exact hmagnitude.trans_le hbound

/-- `3 - 2*X^5`. -/
def gappedPolynomial : Polynomial := ⟨[⟨3, 0⟩, ⟨-2, 5⟩], by decide⟩

/-- At `-4` the value is `2051`. -/
theorem evaluate_gappedPolynomial : (gappedPolynomial.evaluate (-4)).toInt? = some 2051 := by
  have hthree : (3 : Binary64).toInt? = some 3 := by decide +kernel
  have htwo : (-2 : Binary64).toInt? = some (-2) := toInt?_neg toInt?_two
  have hwhole : gappedPolynomial.HasWholeTerms :=
    { exponents := by decide
      coefficients := List.forall_mem_cons.2 ⟨⟨3, hthree, by norm_num⟩,
        List.forall_mem_singleton.2 ⟨-2, htwo, by norm_num⟩⟩ }
  have hvalue : gappedPolynomial.wholeValue (-4) = 2051 := by decide +kernel
  rw [← hvalue]
  exact evaluate_whole hwhole (toInt?_neg toInt?_four) (by decide +kernel)

end Polynomial

end PolySolve
