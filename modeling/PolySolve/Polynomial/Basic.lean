import PolySolve.Decimal.General

/-!
# Polynomials

A polynomial in one variable with binary64 coefficients: its terms, at most one for each exponent,
in ascending order of exponents. A stored coefficient may be zero, and an exponent may be negative.

* `pairwise_alter`: changing one coefficient keeps the order;
* `coefficient?_alter`: it changes that coefficient and no other.
-/

namespace PolySolve

/-- The monomial `coefficient * X ^ exponent`. -/
structure Term where
  coefficient : Binary64
  exponent : Int
  deriving DecidableEq

namespace Term

def neg (t : Term) : Term := ⟨-t.coefficient, t.exponent⟩

/-- The coefficient of the first term with the given exponent. -/
def find? (e : Int) : List Term → Option Binary64
  | [] => none
  | t :: ts => if t.exponent = e then some t.coefficient else find? e ts

/-- Replaces the coefficient at an exponent in a list of terms in ascending order. -/
def alter (e : Int) (f : Option Binary64 → Binary64) : List Term → List Term
  | [] => [⟨f none, e⟩]
  | t :: ts =>
    if e < t.exponent then ⟨f none, e⟩ :: t :: ts
    else if e = t.exponent then ⟨f (some t.coefficient), e⟩ :: ts
    else t :: alter e f ts

/-- Exponents ascend. -/
abbrev Ascending (ts : List Term) : Prop := ts.Pairwise fun s t => s.exponent < t.exponent

theorem mem_alter {e : Int} {f : Option Binary64 → Binary64} {ts : List Term} {t : Term}
    (h : t ∈ alter e f ts) : t.exponent = e ∨ t ∈ ts := by
  induction ts with
  | nil => simp_all [alter]
  | cons s ts ih =>
    rw [alter] at h
    split at h
    · rcases List.mem_cons.1 h with rfl | h
      · exact Or.inl rfl
      · exact Or.inr h
    · split at h
      · rcases List.mem_cons.1 h with rfl | h
        · exact Or.inl rfl
        · exact Or.inr (List.mem_cons_of_mem _ h)
      · rcases List.mem_cons.1 h with rfl | h
        · exact Or.inr List.mem_cons_self
        · exact (ih h).imp_right (List.mem_cons_of_mem _)

theorem pairwise_alter {e : Int} {f : Option Binary64 → Binary64} {ts : List Term}
    (h : Ascending ts) : Ascending (alter e f ts) := by
  induction ts with
  | nil => simp [alter, Ascending]
  | cons t ts ih =>
    have ⟨ht, hts⟩ := List.pairwise_cons.1 h
    rw [alter]
    split
    · rename_i hlt
      refine List.pairwise_cons.2 ⟨fun u hu => ?_, h⟩
      rcases List.mem_cons.1 hu with rfl | hu
      · exact hlt
      · exact Int.lt_trans hlt (ht u hu)
    · split
      · rename_i heq
        exact List.pairwise_cons.2 ⟨fun u hu => heq ▸ ht u hu, hts⟩
      · refine List.pairwise_cons.2 ⟨fun u hu => ?_, ih hts⟩
        rcases mem_alter hu with hu | hu
        · omega
        · exact ht u hu

theorem find?_eq_none_of_lt {e : Int} {ts : List Term} (h : ∀ t ∈ ts, e < t.exponent) :
    find? e ts = none := by
  induction ts with
  | nil => rfl
  | cons t ts ih =>
    have := h t List.mem_cons_self
    rw [find?, if_neg (by omega), ih fun u hu => h u (List.mem_cons_of_mem _ hu)]

theorem find?_alter {e : Int} {f : Option Binary64 → Binary64} {ts : List Term}
    (h : Ascending ts) (k : Int) :
    find? k (alter e f ts) = if k = e then some (f (find? e ts)) else find? k ts := by
  induction ts with
  | nil => simp only [alter, find?]; split <;> simp_all [eq_comm]
  | cons t ts ih =>
    have ⟨ht, hts⟩ := List.pairwise_cons.1 h
    rw [alter]
    split
    · rename_i hlt
      have hn : find? e (t :: ts) = none := by
        refine find?_eq_none_of_lt fun u hu => ?_
        rcases List.mem_cons.1 hu with rfl | hu
        · exact hlt
        · exact Int.lt_trans hlt (ht u hu)
      rw [hn]
      by_cases hk : k = e
      · subst hk; simp [find?]
      · rw [if_neg hk, find?, if_neg (Ne.symm hk)]
    · split
      · rename_i heq
        by_cases hk : k = e
        · subst hk; simp [find?, heq]
        · rw [if_neg hk, find?, if_neg (Ne.symm hk), find?, if_neg (by omega)]
      · by_cases hk : k = e
        · subst hk
          rw [find?, if_neg (by omega), ih hts, if_pos rfl, if_pos rfl, find?, if_neg (by omega)]
        · rw [if_neg hk, find?, ih hts, if_neg hk, find?]

end Term

/-- Terms in ascending order of exponents. -/
structure Polynomial where
  terms : List Term
  ascending : Term.Ascending terms
  deriving DecidableEq

namespace Polynomial

def empty : Polynomial := ⟨[], List.Pairwise.nil⟩

instance : Inhabited Polynomial := ⟨empty⟩

/-- The stored coefficient at an exponent. -/
def coefficient? (p : Polynomial) (e : Int) : Option Binary64 := Term.find? e p.terms

/-- The coefficient at an exponent, zero if none is stored. -/
def coefficient (p : Polynomial) (e : Int) : Binary64 := (p.coefficient? e).getD .zero

/-- The highest stored exponent, and 0 if there is none. -/
def degree (p : Polynomial) : Int := (p.terms.getLast?.map Term.exponent).getD 0

/-- Replaces the coefficient at an exponent. -/
def alter (p : Polynomial) (e : Int) (f : Option Binary64 → Binary64) : Polynomial :=
  ⟨Term.alter e f p.terms, Term.pairwise_alter p.ascending⟩

/-- Stores a coefficient. -/
def insert (p : Polynomial) (t : Term) : Polynomial := p.alter t.exponent fun _ => t.coefficient

/-- Adds a term to the stored coefficient, or to zero. -/
def add (p : Polynomial) (t : Term) : Polynomial :=
  p.alter t.exponent fun old => old.getD .zero + t.coefficient

/-- The polynomial of a list of terms; of two with one exponent the later one counts. -/
def ofTerms (ts : List Term) : Polynomial := ts.foldl insert empty

theorem coefficient?_alter (p : Polynomial) (e k : Int) (f : Option Binary64 → Binary64) :
    (p.alter e f).coefficient? k =
      if k = e then some (f (p.coefficient? e)) else p.coefficient? k :=
  Term.find?_alter p.ascending k

/-- The coefficients at the exponents from 0 to `top`. -/
def dense (p : Polynomial) (top : Int) : List Binary64 :=
  (List.range (top + 1).toNat).map fun (e : Nat) => p.coefficient e

/-- The same exponents with numerically equal coefficients. -/
def numEq (p q : Polynomial) : Bool :=
  p.terms.length == q.terms.length &&
    (p.terms.zip q.terms).all fun (s, t) =>
      s.exponent == t.exponent && s.coefficient.numEq t.coefficient

end Polynomial

end PolySolve
