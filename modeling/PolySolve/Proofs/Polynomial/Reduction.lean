import PolySolve.Polynomial.Reduction
import PolySolve.Proofs.Binary64.Arithmetic

/-!
# Leading coefficients

The sums that are kept are not zero, except at exponent 0, so the leading
coefficient of a reduced polynomial of a higher degree is not.

* `coefficient_of_mem`: a stored coefficient is found;
* `isTopExponent_degree`: the degree is the greatest exponent;
* `exists_mem_of_mem_reduce`: each exponent is that of a term;
* `isZero_leading_reduce`: the coefficient at the degree is not zero;
* `terms_reduce_append`: a reduced polynomial is reduced to itself.
-/

namespace PolySolve

namespace Term

theorem find?_of_mem {ts : List Term} (h : Ascending ts) {t : Term} (ht : t ∈ ts) :
    find? t.exponent ts = some t.coefficient := by
  induction ts with
  | nil => contradiction
  | cons s ts ih =>
    obtain ⟨hs, hts⟩ := List.pairwise_cons.1 h
    rcases List.mem_cons.1 ht with rfl | ht
    · rw [find?, if_pos rfl]
    · have hlt := hs t ht
      rw [find?, if_neg (by omega), ih hts ht]

theorem find?_eq_none {ts : List Term} {e : Int} (h : ∀ t ∈ ts, t.exponent ≠ e) :
    find? e ts = none := by
  induction ts with
  | nil => rfl
  | cons t ts ih =>
    rw [find?, if_neg (h t List.mem_cons_self), ih fun u hu => h u (List.mem_cons_of_mem _ hu)]

/-- A term of a higher exponent than all others comes last. -/
theorem alter_of_lt {ts : List Term} {e : Int} (h : ∀ t ∈ ts, t.exponent < e)
    (f : Option Binary64 → Binary64) : alter e f ts = ts ++ [⟨f none, e⟩] := by
  induction ts with
  | nil => rfl
  | cons t ts ih =>
    have hlt := h t List.mem_cons_self
    rw [alter, if_neg (by omega), if_neg (by omega),
      ih fun u hu => h u (List.mem_cons_of_mem _ hu), List.cons_append]

end Term

namespace Polynomial

theorem ext {p q : Polynomial} (h : p.terms = q.terms) : p = q := by
  obtain ⟨ps, hp⟩ := p
  obtain rfl : ps = q.terms := h
  rfl

theorem coefficient_add (p : Polynomial) (t : Term) (e : Int) :
    (p.add t).coefficient e =
      if t.exponent = e then p.coefficient e + t.coefficient else p.coefficient e := by
  have hadd := coefficient?_alter p t.exponent e fun old => old.getD .zero + t.coefficient
  rw [coefficient, add, hadd]
  by_cases he : e = t.exponent
  · subst he
    rw [if_pos rfl, if_pos rfl]
    rfl
  · rw [if_neg he, if_neg (Ne.symm he)]
    rfl

theorem coefficient_of_mem (p : Polynomial) {t : Term} (h : t ∈ p.terms) :
    p.coefficient t.exponent = t.coefficient := by
  rw [coefficient, coefficient?, Term.find?_of_mem p.ascending h]
  rfl

/-- A coefficient is a stored one or zero. -/
theorem coefficient_eq_or (p : Polynomial) (e : Int) :
    (∃ t ∈ p.terms, t.exponent = e ∧ p.coefficient e = t.coefficient) ∨
      (∀ t ∈ p.terms, t.exponent ≠ e) ∧ p.coefficient e = .zero := by
  by_cases h : ∃ t ∈ p.terms, t.exponent = e
  · obtain ⟨t, ht, rfl⟩ := h
    exact Or.inl ⟨t, ht, rfl, p.coefficient_of_mem ht⟩
  · simp only [not_exists, not_and] at h
    refine Or.inr ⟨h, ?_⟩
    rw [coefficient, coefficient?, Term.find?_eq_none h]
    rfl

/-- A degree other than 0 is the exponent of a stored term. -/
theorem exists_mem_of_degree {p : Polynomial} (h : p.degree ≠ 0) :
    ∃ t ∈ p.terms, t.exponent = p.degree := by
  unfold degree at h ⊢
  cases hl : p.terms.getLast? with
  | none =>
    rw [hl] at h
    exact absurd rfl h
  | some t => exact ⟨t, List.mem_of_getLast? hl, rfl⟩

/-- The greatest exponent of the stored terms, and 0 if there are none. -/
def IsTopExponent (p : Polynomial) (d : Int) : Prop :=
  (p.terms = [] ∧ d = 0) ∨ (∃ t ∈ p.terms, t.exponent = d) ∧ ∀ t ∈ p.terms, t.exponent ≤ d

theorem isTopExponent_degree (p : Polynomial) : p.IsTopExponent p.degree := by
  unfold IsTopExponent degree
  cases hl : p.terms.getLast? with
  | none => exact Or.inl ⟨List.getLast?_eq_none_iff.1 hl, rfl⟩
  | some t =>
    have ht : t ∈ p.terms := List.mem_of_getLast? hl
    refine Or.inr ⟨⟨t, ht, rfl⟩, fun u hu => ?_⟩
    obtain ⟨before, hp⟩ := List.getLast?_eq_some_iff.1 hl
    have ascending := p.ascending
    rw [hp] at hu ascending
    rcases List.mem_append.1 hu with hu | hu
    · exact Int.le_of_lt ((List.pairwise_append.1 ascending).2.2 u hu t List.mem_cons_self)
    · rw [List.mem_singleton.1 hu]
      exact Int.le_refl _

/-- Collecting makes up no exponents. -/
theorem exists_mem_of_mem_foldl_add {ts : List Term} {p : Polynomial} {t : Term}
    (h : t ∈ (ts.foldl add p).terms) : t ∈ p.terms ∨ ∃ u ∈ ts, u.exponent = t.exponent := by
  induction ts generalizing p with
  | nil => exact Or.inl h
  | cons u ts ih =>
    rcases ih h with h | ⟨v, hv, he⟩
    · rcases Term.mem_alter h with he | h
      · exact Or.inr ⟨u, List.mem_cons_self, he.symm⟩
      · exact Or.inl h
    · exact Or.inr ⟨v, List.mem_cons_of_mem _ hv, he⟩

theorem exists_mem_of_mem_reduce {ts : List Term} {t : Term} (h : t ∈ (reduce ts).terms) :
    ∃ u ∈ ts, u.exponent = t.exponent := by
  obtain ⟨s, hs, rfl⟩ := List.mem_map.1 h
  exact (exists_mem_of_mem_foldl_add (List.mem_filter.1 hs).1).resolve_left List.not_mem_nil

theorem degree_reduce_nonneg {ts : List Term} (h : ∀ t ∈ ts, 0 ≤ t.exponent) :
    0 ≤ (reduce ts).degree := by
  by_cases hd : (reduce ts).degree = 0
  · omega
  · obtain ⟨t, ht, he⟩ := exists_mem_of_degree hd
    obtain ⟨u, hu, heu⟩ := exists_mem_of_mem_reduce ht
    have := h u hu
    omega

theorem isZero_of_mem_reduce {ts : List Term} {t : Term} (ht : t ∈ (reduce ts).terms)
    (he : t.exponent ≠ 0) : t.coefficient.isZero = false := by
  obtain ⟨u, hu, rfl⟩ := List.mem_map.1 ht
  have hkept := (List.mem_filter.1 hu).2
  have he : u.exponent ≠ 0 := he
  rw [isKept, beq_eq_false_iff_ne.2 he, Bool.or_false, Bool.not_eq_true'] at hkept
  rw [stored, Binary64.unsignedZero_of_isZero hkept, hkept]

theorem isZero_leading_reduce {ts : List Term} (h : (reduce ts).degree ≠ 0) :
    ((reduce ts).coefficient (reduce ts).degree).isZero = false := by
  obtain ⟨t, ht, he⟩ := exists_mem_of_degree h
  rw [← he] at h ⊢
  rw [coefficient_of_mem _ ht]
  exact isZero_of_mem_reduce ht h

/-! ## Reducing again -/

/-- A stored coefficient is never minus zero. -/
theorem ne_of_mem_reduce {ts : List Term} {t : Term} (h : t ∈ (reduce ts).terms) :
    t.coefficient ≠ -.zero := by
  obtain ⟨u, -, rfl⟩ := List.mem_map.1 h
  exact u.coefficient.unsignedZero_ne

theorem isKept_of_mem_reduce {ts : List Term} {t : Term} (h : t ∈ (reduce ts).terms) :
    isKept t := by
  by_cases he : t.exponent = 0
  · simp [isKept, he]
  · simp [isKept, isZero_of_mem_reduce h he]

theorem terms_add (p : Polynomial) (t : Term) : (p.add t).terms =
    Term.alter t.exponent (fun old => old.getD .zero + t.coefficient) p.terms := rfl

/-- Terms in ascending order are collected as they are. -/
theorem terms_foldl_add {ts : List Term} {p : Polynomial} (h : Term.Ascending (p.terms ++ ts))
    (hts : ∀ t ∈ ts, t.coefficient ≠ -.zero) : (ts.foldl add p).terms = p.terms ++ ts := by
  induction ts generalizing p with
  | nil => exact (List.append_nil _).symm
  | cons t ts ih =>
    have hlast : (p.add t).terms = p.terms ++ [t] := by
      have hlt : ∀ u ∈ p.terms, u.exponent < t.exponent := fun u hu =>
        (List.pairwise_append.1 h).2.2 u hu t List.mem_cons_self
      have hzero := Binary64.zero_add (hts t List.mem_cons_self)
      rw [terms_add, Term.alter_of_lt hlt, Option.getD_none, hzero]
    rw [List.foldl_cons, ih (by simpa [hlast] using h) fun u hu => hts u (List.mem_cons_of_mem _ hu),
      hlast, List.append_assoc, List.singleton_append]

/-- Adding minus zero to the constant changes no coefficient, but may store a zero. -/
theorem terms_add_neg_zero {p : Polynomial} (hexp : ∀ t ∈ p.terms, 0 ≤ t.exponent)
    (hne : ∀ t ∈ p.terms, t.coefficient ≠ -.zero) :
    (p.add ⟨-.zero, 0⟩).terms = p.terms ∨
      (p.add ⟨-.zero, 0⟩).terms = ⟨.zero, 0⟩ :: p.terms := by
  rw [terms_add]
  cases hp : p.terms with
  | nil => exact Or.inr rfl
  | cons t ts =>
    have h0 := hexp t (hp ▸ List.mem_cons_self)
    have hc := hne t (hp ▸ List.mem_cons_self)
    by_cases he : 0 < t.exponent
    · right
      rw [Term.alter, if_pos he, Option.getD_none, Binary64.zero_add_neg_zero]
    · obtain ⟨c, e⟩ := t
      obtain rfl : e = 0 := Int.le_antisymm (Int.not_lt.1 he) h0
      left
      rw [Term.alter, if_neg he, if_pos rfl, Option.getD_some, Binary64.add_neg_zero hc]

theorem terms_reduce_of_kept {ts : List Term} (hkept : ∀ t ∈ (sums ts).terms, isKept t)
    (hne : ∀ t ∈ (sums ts).terms, t.coefficient ≠ -.zero) :
    (reduce ts).terms = (sums ts).terms := by
  have hstored : ∀ t ∈ (sums ts).terms, stored t = t := fun t ht => by
    rw [stored, Binary64.unsignedZero_of_ne (hne t ht)]
  show ((sums ts).terms.filter isKept).map stored = _
  rw [List.filter_eq_self.2 hkept, List.map_congr_left hstored, List.map_id']

/-- The terms of a reduced polynomial, taken as they are and with minus zero as a constant, add up to
the polynomial, but for a stored zero. -/
theorem terms_reduce_append {ts : List Term} (h : ∀ t ∈ (reduce ts).terms, 0 ≤ t.exponent) :
    (reduce ((reduce ts).terms ++ [⟨-.zero, 0⟩])).terms = (reduce ts).terms ∨
      (reduce ((reduce ts).terms ++ [⟨-.zero, 0⟩])).terms = ⟨.zero, 0⟩ :: (reduce ts).terms := by
  have hne : ∀ t ∈ (reduce ts).terms, t.coefficient ≠ -.zero := fun t => ne_of_mem_reduce
  have hsums : sums ((reduce ts).terms ++ [⟨-.zero, 0⟩]) = (reduce ts).add ⟨-.zero, 0⟩ := by
    have hfold : (reduce ts).terms.foldl add empty = reduce ts :=
      Polynomial.ext (terms_foldl_add (p := empty) (reduce ts).ascending hne)
    rw [sums, List.foldl_append, hfold]
    rfl
  have hterms := terms_add_neg_zero h hne
  rw [terms_reduce_of_kept, hsums]
  · exact hterms
  · intro t ht
    rw [hsums] at ht
    rcases hterms with he | he <;> rw [he] at ht
    · exact isKept_of_mem_reduce ht
    · rcases List.mem_cons.1 ht with rfl | ht
      · rfl
      · exact isKept_of_mem_reduce ht
  · intro t ht
    rw [hsums] at ht
    rcases hterms with he | he <;> rw [he] at ht
    · exact hne t ht
    · rcases List.mem_cons.1 ht with rfl | ht
      · exact fun h => by cases h
      · exact hne t ht

/-- A zero that is stored does not change the coefficients. -/
theorem coefficient_eq_of_terms {p q : Polynomial}
    (h : q.terms = p.terms ∨ q.terms = ⟨.zero, 0⟩ :: p.terms) (e : Int) :
    q.coefficient e = p.coefficient e := by
  unfold coefficient coefficient?
  rcases h with h | h
  · rw [h]
  · have ascending := q.ascending
    rw [h] at ascending ⊢
    rw [Term.find?]
    split
    · rename_i he
      have he : (0 : Int) = e := he
      rw [Term.find?_eq_none_of_lt (he ▸ (List.pairwise_cons.1 ascending).1)]
      rfl
    · rfl

end Polynomial

end PolySolve
