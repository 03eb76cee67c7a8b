import PolySolve.Proofs.Binary64.Exact
import PolySolve.Proofs.Polynomial.Reduction

/-!
# Terms and their negatives

The coefficients of each exponent are added up on their own, in the order of the
terms. Terms followed by their negatives leave, at each exponent, what is left
when its coefficients are taken away again from their sum, one by one.

* `coefficient_sums`: a sum is a fold over the coefficients of its exponent;
* `leftover`, `coefficient_sums_cancelling`: what is left at an exponent;
* `isZero_leftover`: nothing, if the coefficients add up exactly;
* `isNull_reduce_iff`: a polynomial without terms, but perhaps a constant zero.
-/

namespace PolySolve

open Binary64

namespace Term

/-- The coefficients at an exponent, in the order of the terms. -/
def coefficientsAt (e : Int) (ts : List Term) : List Binary64 :=
  (ts.filter fun t => t.exponent == e).map coefficient

theorem coefficientsAt_cons (e : Int) (t : Term) (ts : List Term) :
    coefficientsAt e (t :: ts) =
      if t.exponent = e then t.coefficient :: coefficientsAt e ts else coefficientsAt e ts := by
  by_cases h : t.exponent = e <;> simp [coefficientsAt, h]

theorem coefficientsAt_append (e : Int) (ts us : List Term) :
    coefficientsAt e (ts ++ us) = coefficientsAt e ts ++ coefficientsAt e us := by
  rw [coefficientsAt, List.filter_append, List.map_append]
  rfl

theorem coefficientsAt_neg (e : Int) (ts : List Term) :
    coefficientsAt e (ts.map neg) = (coefficientsAt e ts).map (- ·) := by
  induction ts with
  | nil => rfl
  | cons t ts ih =>
    rw [List.map_cons, coefficientsAt_cons, coefficientsAt_cons, ih]
    show (if t.exponent = e then -t.coefficient :: _ else _) = _
    split <;> rfl

/-- If no exponent occurs twice there is at most one coefficient at each. -/
theorem coefficientsAt_of_nodup {ts : List Term} (h : (ts.map exponent).Nodup) (e : Int) :
    coefficientsAt e ts = [] ∨ ∃ t ∈ ts, coefficientsAt e ts = [t.coefficient] := by
  induction ts with
  | nil => exact Or.inl rfl
  | cons t ts ih =>
    obtain ⟨ht, hts⟩ := List.nodup_cons.1 h
    rw [coefficientsAt_cons]
    split
    · rename_i he
      have hnone : coefficientsAt e ts = [] := by
        rw [coefficientsAt, List.map_eq_nil_iff, List.filter_eq_nil_iff]
        intro u hu hue
        exact ht (List.mem_map.2 ⟨u, hu, (beq_iff_eq.1 hue).trans he.symm⟩)
      exact Or.inr ⟨t, List.mem_cons_self, by rw [hnone]⟩
    · rcases ih hts with hnil | ⟨u, hu, hone⟩
      · exact Or.inl hnil
      · exact Or.inr ⟨u, List.mem_cons_of_mem _ hu, hone⟩

/-- What is left at an exponent when its coefficients are taken away from their sum one by one. -/
def leftover (e : Int) (ts : List Term) : Binary64 :=
  (coefficientsAt e ts).foldl (· - ·) ((coefficientsAt e ts).foldl (· + ·) .zero)

/-- Like terms add up without rounding. -/
def AddExactly (ts : List Term) : Prop := ∀ e, AddsExactly (coefficientsAt e ts)

/-- Nothing is left where like terms add up exactly. -/
theorem isZero_leftover {ts : List Term} (h : AddExactly ts) (e : Int) : (leftover e ts).isZero :=
  isZero_foldl_sub (h e)

theorem addExactly_of_nodup {ts : List Term} (hts : (ts.map exponent).Nodup)
    (hfinite : ∀ t ∈ ts, t.coefficient.isFinite) : AddExactly ts := by
  intro e
  rcases coefficientsAt_of_nodup hts e with hnil | ⟨t, ht, hone⟩
  · rw [hnil]
    exact addsExactly_nil
  · rw [hone]
    exact addsExactly_singleton (hfinite t ht)

end Term

namespace Polynomial

/-! ## Sums -/

theorem coefficient_foldl_add (ts : List Term) (p : Polynomial) (e : Int) :
    (ts.foldl add p).coefficient e =
      (Term.coefficientsAt e ts).foldl (· + ·) (p.coefficient e) := by
  induction ts generalizing p with
  | nil => rfl
  | cons t ts ih =>
    rw [List.foldl_cons, ih, coefficient_add, Term.coefficientsAt_cons]
    split <;> rfl

/-- The coefficients of each exponent are added up on their own. -/
theorem coefficient_sums (ts : List Term) (e : Int) :
    (sums ts).coefficient e = (Term.coefficientsAt e ts).foldl (· + ·) .zero :=
  coefficient_foldl_add ts empty e

theorem coefficient_sums_cancelling (ts : List Term) (e : Int) :
    (sums (ts ++ ts.map Term.neg)).coefficient e = Term.leftover e ts := by
  rw [coefficient_sums, Term.coefficientsAt_append, Term.coefficientsAt_neg, List.foldl_append,
    List.foldl_map]
  rfl

/-! ## Null polynomials -/

/-- No terms but perhaps a constant zero. -/
def IsNull (p : Polynomial) : Prop := ∀ t ∈ p.terms, t.exponent = 0 ∧ t.coefficient = .zero

variable {p : Polynomial} {ts : List Term}

theorem isNull_reduce_iff : (reduce ts).IsNull ↔ ∀ e, ((sums ts).coefficient e).isZero := by
  constructor
  · intro h e
    rcases (sums ts).coefficient_eq_or e with ⟨t, ht, -, he⟩ | ⟨-, he⟩
    · rw [he]
      cases hz : t.coefficient.isZero with
      | true => rfl
      | false =>
        have hkept : isKept t := by simp [isKept, hz]
        have hzero := (h _ (List.mem_map_of_mem (List.mem_filter.2 ⟨ht, hkept⟩))).2
        rw [stored, unsignedZero_of_isZero hz] at hzero
        rw [hzero] at hz
        contradiction
    · rw [he]
      rfl
  · intro h t ht
    obtain ⟨u, hu, rfl⟩ := List.mem_map.1 ht
    obtain ⟨hu, hkept⟩ := List.mem_filter.1 hu
    have hz : u.coefficient.isZero := by
      have := h u.exponent
      rwa [coefficient_of_mem _ hu] at this
    rw [isKept, hz, Bool.not_true, Bool.false_or, beq_iff_eq] at hkept
    exact ⟨hkept, unsignedZero_eq_zero hz⟩

end Polynomial

end PolySolve
