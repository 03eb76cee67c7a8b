import Mathlib.Data.List.Sort
import PolySolve.Proofs.Binary64.Opposite
import PolySolve.Proofs.Polynomial.Cancelling

/-!
# Collected terms

A polynomial is known by the coefficients that are stored, and what is stored of a
list of terms is known exponent by exponent: the sum of the coefficients at the
exponent, in the order of the terms. So terms of different exponents may change
places, and the terms of the result are collected to the result again, whatever
the sums are, infinite ones and nan included.

* `ext_coefficient?`: polynomials with the same stored coefficients;
* `Term.sumAt`: the sum at an exponent;
* `coefficient?_sums`, `mem_reduce_iff`: what is stored before and after zero sums are dropped;
* `Term.Rearranges`: the same terms, like terms in the same order;
* `collected_terms`: what terms are collected to.
-/

namespace PolySolve

open Binary64

namespace Term

/-! ## Terms in ascending order -/

theorem mem_of_find? {ts : List Term} {e : Int} {c : Binary64} (h : find? e ts = some c) :
    ⟨c, e⟩ ∈ ts := by
  induction ts with
  | nil => contradiction
  | cons t ts ih =>
    rw [find?] at h
    split at h
    · rename_i he
      subst he
      obtain rfl := Option.some.inj h
      exact List.mem_cons_self
    · exact List.mem_cons_of_mem _ (ih h)

theorem mem_iff_find? {ts : List Term} (hts : Ascending ts) {t : Term} :
    t ∈ ts ↔ find? t.exponent ts = some t.coefficient :=
  ⟨find?_of_mem hts, mem_of_find?⟩

theorem eq_of_find?_eq {ts us : List Term} (hts : Ascending ts) (hus : Ascending us)
    (h : ∀ e, find? e ts = find? e us) : ts = us := by
  have hirrefl : Std.Irrefl fun s t : Term => s.exponent < t.exponent :=
    ⟨fun t => Int.lt_irrefl t.exponent⟩
  have hantisymm : Std.Antisymm fun s t : Term => s.exponent < t.exponent :=
    ⟨fun s t hst hts => absurd hts (Int.lt_asymm hst)⟩
  refine List.Pairwise.eq_of_mem_iff hts hus fun t => ?_
  rw [mem_iff_find? hts, mem_iff_find? hus, h]

/-! ## Sums -/

/-- The sum of the coefficients at an exponent, in the order of the terms and from plus zero. -/
def sumAt (e : Int) (ts : List Term) : Binary64 := (coefficientsAt e ts).foldl (· + ·) .zero

theorem foldl_add_ne {xs : List Binary64} {x : Binary64} (h : x ≠ -.zero) :
    xs.foldl (· + ·) x ≠ -.zero := by
  induction xs generalizing x with
  | nil => exact h
  | cons y xs ih => exact ih (add_ne h y)

/-- No sum is minus zero, as none starts there. -/
theorem sumAt_ne (e : Int) (ts : List Term) : sumAt e ts ≠ -.zero :=
  foldl_add_ne fun h => by cases h

theorem coefficientsAt_ne_nil_iff {e : Int} {ts : List Term} :
    coefficientsAt e ts ≠ [] ↔ ∃ t ∈ ts, t.exponent = e := by
  simp [coefficientsAt]

/-- The same terms in an order that leaves the terms of each exponent as they are. -/
structure Rearranges (us ts : List Term) : Prop where
  perm : us.Perm ts
  coefficients : ∀ e, coefficientsAt e us = coefficientsAt e ts

end Term

namespace Polynomial

/-- A polynomial is known by its stored coefficients. -/
theorem ext_coefficient? {p q : Polynomial} (h : ∀ e, p.coefficient? e = q.coefficient? e) :
    p = q :=
  Polynomial.ext (Term.eq_of_find?_eq p.ascending q.ascending h)

theorem mem_terms_iff {p : Polynomial} {t : Term} :
    t ∈ p.terms ↔ p.coefficient? t.exponent = some t.coefficient :=
  Term.mem_iff_find? p.ascending

theorem coefficient?_add (p : Polynomial) (t : Term) (e : Int) :
    (p.add t).coefficient? e =
      if t.exponent = e then some ((p.coefficient? e).getD .zero + t.coefficient)
      else p.coefficient? e := by
  have hadd := coefficient?_alter p t.exponent e fun old => old.getD .zero + t.coefficient
  rw [add, hadd]
  by_cases he : t.exponent = e
  · subst he
    rw [if_pos rfl]
  · rw [if_neg (Ne.symm he), if_neg he]

/-- Only the coefficients at an exponent count there: what is stored so far is added to, and
something is stored from the first of them on. -/
theorem coefficient?_foldl_add (ts : List Term) (p : Polynomial) (e : Int) :
    (ts.foldl add p).coefficient? e =
      (Term.coefficientsAt e ts).foldl (fun old c => some (old.getD .zero + c))
        (p.coefficient? e) := by
  induction ts generalizing p with
  | nil => rfl
  | cons t ts ih =>
    rw [List.foldl_cons, ih, coefficient?_add, Term.coefficientsAt_cons]
    split <;> rfl

theorem foldl_some (xs : List Binary64) (x : Binary64) :
    xs.foldl (fun old c => some (old.getD .zero + c)) (some x) = some (xs.foldl (· + ·) x) := by
  induction xs generalizing x with
  | nil => rfl
  | cons y xs ih => exact ih (x + y)

/-- The sum at each exponent that occurs is stored, and nothing else. -/
theorem coefficient?_sums (ts : List Term) (e : Int) :
    (sums ts).coefficient? e =
      if Term.coefficientsAt e ts = [] then none else some (Term.sumAt e ts) := by
  have hfold := coefficient?_foldl_add ts empty e
  rw [sums, hfold, Term.sumAt]
  cases Term.coefficientsAt e ts with
  | nil => rfl
  | cons c cs => exact foldl_some cs (.zero + c)

/-- No sum is minus zero before it is stored, so it is stored as it is. -/
theorem terms_reduce (ts : List Term) : (reduce ts).terms = (sums ts).terms.filter isKept := by
  have hstored : ∀ t ∈ (sums ts).terms.filter isKept, stored t = t := fun t ht => by
    have hsum := mem_terms_iff.1 (List.mem_filter.1 ht).1
    rw [coefficient?_sums] at hsum
    split at hsum
    · contradiction
    · have hne := Term.sumAt_ne t.exponent ts
      rw [Option.some.inj hsum] at hne
      rw [stored, unsignedZero_of_ne hne]
  show ((sums ts).terms.filter isKept).map stored = _
  rw [List.map_congr_left hstored, List.map_id']

/-- A term is stored if its exponent occurs, its coefficient is the sum there, and this is not zero
or the constant. -/
theorem mem_reduce_iff {ts : List Term} {t : Term} :
    t ∈ (reduce ts).terms ↔
      (∃ u ∈ ts, u.exponent = t.exponent) ∧
      (t.exponent = 0 ∨ (Term.sumAt t.exponent ts).isZero = false) ∧
      t.coefficient = Term.sumAt t.exponent ts := by
  have hkept : isKept t ↔ t.coefficient.isZero = false ∨ t.exponent = 0 := by
    rw [isKept, Bool.or_eq_true, Bool.not_eq_true', beq_iff_eq]
  rw [terms_reduce, List.mem_filter, mem_terms_iff, coefficient?_sums, hkept,
    ← Term.coefficientsAt_ne_nil_iff]
  by_cases hnil : Term.coefficientsAt t.exponent ts = []
  · rw [if_pos hnil]
    exact ⟨fun h => by simp at h, fun h => absurd hnil h.1⟩
  · rw [if_neg hnil, Option.some.injEq]
    constructor
    · rintro ⟨hsum, h⟩
      rw [hsum]
      exact ⟨hnil, h.symm, rfl⟩
    · rintro ⟨-, h, hsum⟩
      rw [hsum]
      exact ⟨rfl, h.symm⟩

/-! ## Other orders -/

theorem sums_of_coefficients {ts us : List Term}
    (h : ∀ e, Term.coefficientsAt e us = Term.coefficientsAt e ts) : sums us = sums ts := by
  refine ext_coefficient? fun e => ?_
  rw [coefficient?_sums, coefficient?_sums, Term.sumAt, Term.sumAt, h]

theorem reduce_of_rearranges {ts us : List Term} (h : Term.Rearranges us ts) :
    reduce us = reduce ts := by
  apply Polynomial.ext
  rw [terms_reduce, terms_reduce, sums_of_coefficients h.coefficients]

/-- The terms of a reduced polynomial are collected as they are. -/
theorem reduce_terms_reduce (ts : List Term) : reduce (reduce ts).terms = reduce ts := by
  have hne : ∀ t ∈ (reduce ts).terms, t.coefficient ≠ -.zero := fun t => ne_of_mem_reduce
  have hsums : (sums (reduce ts).terms).terms = (reduce ts).terms :=
    terms_foldl_add (p := empty) (reduce ts).ascending hne
  apply Polynomial.ext
  rw [terms_reduce, hsums, List.filter_eq_self]
  exact fun t => isKept_of_mem_reduce

/-- What terms are collected to. The exponents ascend. Stored is, for each exponent that occurs,
the sum of its coefficients in the order of the terms, if it is not zero or the constant; it is
never minus zero. Terms of different exponents may change places, and the result is collected to
itself. -/
theorem collected_terms (ts : List Term) :
    ((reduce ts).terms.map Term.exponent).Pairwise (· < ·) ∧
    (∀ t, t ∈ (reduce ts).terms ↔
      (∃ u ∈ ts, u.exponent = t.exponent) ∧
      (t.exponent = 0 ∨ (Term.sumAt t.exponent ts).isZero = false) ∧
      t.coefficient = Term.sumAt t.exponent ts) ∧
    (∀ t ∈ (reduce ts).terms, t.coefficient ≠ -.zero) ∧
    (∀ us, Term.Rearranges us ts → reduce us = reduce ts) ∧
    reduce (reduce ts).terms = reduce ts :=
  ⟨List.pairwise_map.2 (reduce ts).ascending, fun _ => mem_reduce_iff,
    fun _ => ne_of_mem_reduce, fun _ => reduce_of_rearranges, reduce_terms_reduce ts⟩

/-- The terms of `2*X + 3 - 2*X`. -/
def vanishingTerms : List Term := [⟨2, 1⟩, ⟨3, 0⟩, ⟨-2, 1⟩]

/-- The constant comes first instead; the linear terms leave nothing in either order. -/
theorem collected_vanishingTerms :
    reduce [⟨3, 0⟩, ⟨2, 1⟩, ⟨-2, 1⟩] = reduce vanishingTerms ∧
      (reduce vanishingTerms).terms = [⟨3, 0⟩] := by
  have hrearranges : Term.Rearranges [⟨3, 0⟩, ⟨2, 1⟩, ⟨-2, 1⟩] vanishingTerms :=
    { perm := List.Perm.swap _ _ _
      coefficients := fun e => by
        simp only [vanishingTerms, Term.coefficientsAt_cons]
        by_cases h0 : (0 : Int) = e
        · simp [← h0]
        · simp only [if_neg h0] }
  exact ⟨(collected_terms vanishingTerms).2.2.2.1 _ hrearranges, by decide +kernel⟩

end Polynomial

end PolySolve
