import PolySolve.Proofs.Equation.Margins
import PolySolve.Proofs.Polynomial.Opposite
import PolySolve.Proofs.Solution.Identity
import PolySolve.Proofs.Solution.Operations

/-!
# Equations with their sides swapped

Swapping the sides of an equation makes its polynomial opposite. Opposite
polynomials have the same discriminant, to the bit, and each root formula gives
the same roots. Only the two real roots of a pair change places, since it is the
sign of the divisor that tells which one comes first; and a root of a pair that is
zero may change its sign, which its text does not show.

* `Opposite.discriminant`, `Opposite.complexRoot`: the parts of the formulas;
* `Opposite.outcome`: outcomes of opposite polynomials;
* `Opposite.overflows`, `Opposite.modulusOverflows`: what solving them fails by;
* `swapped_solved`: whole equations, and polynomials.
-/

namespace PolySolve

open Binary64 Decimal

-- The elaborator must not evaluate these powers of two.
attribute [local irreducible] overflowUnits unitsPerOne

/-! ## The order of the roots -/

/-- Two roots of a pair change places; all others stay. -/
def Kind.mirrored {α : Type} (k : Kind) (xs : List α) : List α :=
  if k = .pair then xs.reverse else xs

namespace Kind

variable {α β : Type}

theorem mirrored_of_ne {k : Kind} (h : k ≠ .pair) (xs : List α) : k.mirrored xs = xs := if_neg h

theorem map_mirrored (k : Kind) (f : α → β) (xs : List α) :
    (k.mirrored xs).map f = k.mirrored (xs.map f) := by
  unfold mirrored
  split
  · rw [List.map_reverse]
  · rfl

theorem mem_mirrored {k : Kind} {x : α} {xs : List α} : x ∈ k.mirrored xs ↔ x ∈ xs := by
  unfold mirrored
  split
  · exact List.mem_reverse
  · exact Iff.rfl

end Kind

namespace Root

/-- Both are real or both are complex, and their parts are numerically equal. -/
def NumEq : Root → Root → Prop
  | real x, real y => x.numEq y
  | complex w, complex z => w.re.numEq z.re ∧ w.im.numEq z.im
  | _, _ => False

theorem SameValue.refl (r : Root) : r.SameValue r := by
  cases r with
  | real x => exact .real (.refl x)
  | complex z => exact .complex z

theorem SameValue.numEq {r s : Root} (h : r.SameValue s) (hr : r.isFinite) : r.NumEq s := by
  cases h with
  | real hx => exact hx.numEq hr
  | complex z =>
    obtain ⟨hre, him⟩ := Bool.and_eq_true_iff.1 hr
    exact ⟨(Binary64.SameValue.refl z.re).numEq hre, (Binary64.SameValue.refl z.im).numEq him⟩

theorem SameValue.isFinite {r s : Root} (h : r.SameValue s) : s.isFinite = r.isFinite := by
  cases h with
  | real hx => exact hx.symm.isFinite
  | complex z => rfl

theorem fixedChars_of_isZero {x y : Binary64} (hx : x.isZero) (hy : y.isZero) :
    fixedChars 6 x = fixedChars 6 y := by
  obtain ⟨s, rfl⟩ := exists_of_isZero hx
  obtain ⟨t, rfl⟩ := exists_of_isZero hy
  have hcount : fixedCount 6 0 = 0 := by decide +kernel
  simp only [fixedChars, hcount]
  cases s <;> cases t <;> rfl

/-- The text of a root does not show the sign of a zero. -/
theorem SameValue.fixedText {r s : Root} (h : r.SameValue s) : s.fixedText = r.fixedText := by
  cases h with
  | @real x y hx => exact hx.symm.congr (f := fixedChars 6) fun _ _ => fixedChars_of_isZero
  | complex z => rfl

end Root

/-! ## Outcomes -/

/-- The same outcome, with the two roots of a pair in the opposite order. -/
structure Outcome.Mirrors (R : Root → Root → Prop) (o o' : Outcome) : Prop where
  kind : o'.kind = o.kind
  degree : o'.degree = o.degree
  discriminant : o'.discriminant = o.discriminant
  roots : List.Forall₂ R (o.kind.mirrored o.roots) o'.roots

namespace Outcome

variable {R : Root → Root → Prop} {o o' : Outcome}

theorem mirrors_of_roots_eq {k : Kind} (hk : k ≠ .pair) (degree : Int)
    (discriminant : Option Binary64) {rs rs' : List Root} (h : rs' = rs) :
    Mirrors Root.SameValue ⟨k, degree, discriminant, rs⟩ ⟨k, degree, discriminant, rs'⟩ := by
  refine ⟨rfl, rfl, rfl, ?_⟩
  show List.Forall₂ Root.SameValue (k.mirrored rs) rs'
  rw [Kind.mirrored_of_ne hk, h, List.forall₂_same]
  exact fun r _ => .refl r

theorem Mirrors.imp (h : Mirrors R o o') {S : Root → Root → Prop}
    (hrs : ∀ r ∈ o.roots, ∀ s, R r s → S r s) : Mirrors S o o' := by
  refine ⟨h.kind, h.degree, h.discriminant, ?_⟩
  have hmem := (List.forall₂_and_left (p := (· ∈ o.roots)) _ _).2
    ⟨fun r hr => Kind.mem_mirrored.1 hr, h.roots⟩
  exact hmem.imp fun r s hr => hrs r hr.1 s hr.2

/-- What related roots agree on, in the order of the roots. -/
theorem Mirrors.map_eq {α : Type} (h : Mirrors R o o') {f g : Root → α}
    (hfg : ∀ r s, R r s → g s = f r) : o'.roots.map g = o.kind.mirrored (o.roots.map f) := by
  rw [← Kind.map_mirrored]
  have hroots := h.roots
  generalize o.kind.mirrored o.roots = rs, o'.roots = rs' at hroots
  induction hroots with
  | nil => rfl
  | cons hr _ ih => rw [List.map_cons, List.map_cons, hfg _ _ hr, ih]

/-- One of the roots is not finite for both outcomes, or for neither. -/
theorem Mirrors.exists_not_isFinite (h : Mirrors Root.SameValue o o') {r : Root} (hr : r ∈ o.roots)
    (hf : r.isFinite = false) : ∃ s ∈ o'.roots, s.isFinite = false := by
  have hmem : false ∈ o'.roots.map Root.isFinite := by
    rw [h.map_eq fun _ _ => Root.SameValue.isFinite, Kind.mem_mirrored]
    exact List.mem_map.2 ⟨r, hr, hf⟩
  exact List.mem_map.1 hmem

end Outcome

/-! ## Formulas -/

namespace Polynomial

variable {p q : Polynomial}

theorem Opposite.hasLead (h : p.Opposite q) (hp : p.HasLead) : q.HasLead := by
  unfold HasLead
  rw [h.degree, (h.coefficient p.degree).isZero, isZero_neg]
  exact hp

/-- The square of the linear coefficient is the same, and so is the product of the two others. -/
theorem Opposite.discriminant (h : p.Opposite q) : q.discriminant = p.discriminant := by
  have hsquare : q.coefficient 1 * q.coefficient 1 = p.coefficient 1 * p.coefficient 1 := by
    rw [(h.coefficient 1).mul_self, neg_mul_neg_self]
  have hproduct : SameValue (4 * q.coefficient 2 * q.coefficient 0)
      (4 * p.coefficient 2 * p.coefficient 0) := by
    have hboth := ((SameValue.refl 4).mul (h.coefficient 2)).mul (h.coefficient 0)
    rwa [neg_mul_right, neg_mul_right, neg_mul_left, neg_neg] at hboth
  rw [Polynomial.discriminant, Polynomial.discriminant, hsquare]
  exact sub_eq_of_sameValue (mul_self_ne _) hproduct

/-- A coefficient other than zero is exactly opposite. -/
theorem Opposite.coefficient_eq (h : p.Opposite q) {e : Int}
    (he : (p.coefficient e).isZero = false) : q.coefficient e = -p.coefficient e :=
  (h.coefficient e).eq_of_isZero (by rwa [isZero_neg])

theorem Opposite.divisor_eq (h : p.Opposite q) (ha : (p.coefficient 2).isZero = false) :
    2 * q.coefficient 2 = -(2 * p.coefficient 2) := by
  rw [h.coefficient_eq ha, neg_mul_right]

/-- Opposite values divided by opposite ones. -/
theorem sameValue_div_neg {x x' : Binary64} (h : SameValue x' (-x)) (y : Binary64) :
    SameValue (x' / -y) (x / y) := by
  have hquotient := h.div (-y)
  have hsame : -x / -y = x / y := by rw [neg_div_left, neg_div_right, neg_neg]
  rwa [hsame] at hquotient

/-- The root of a linear equation, and the mean of the two roots of a quadratic one. -/
theorem Opposite.quotient (h : p.Opposite q) (e : Int) (y : Binary64) :
    (-q.coefficient e / -y).unsignedZero = (-p.coefficient e / y).unsignedZero :=
  sameValue_div_neg (h.coefficient e).neg y

theorem Opposite.complexRoot (h : p.Opposite q) (ha : (p.coefficient 2).isZero = false) :
    q.complexRoot = p.complexRoot := by
  unfold Polynomial.complexRoot
  rw [h.discriminant, h.divisor_eq ha, h.quotient, neg_div_right, abs_neg]

/-- The numerators of the two roots change places and signs. -/
theorem Opposite.numerator (h : p.Opposite q) (x : Binary64) :
    SameValue (-q.coefficient 1 + x) (-(-p.coefficient 1 + -x)) := by
  have hneg := sameValue_neg_add (-p.coefficient 1) (-x)
  rw [neg_neg x] at hneg
  exact ((h.coefficient 1).neg.add_right x).trans hneg

theorem Opposite.quadraticOutcome (h : p.Opposite q) (ha : (p.coefficient 2).isZero = false) :
    p.quadraticOutcome.Mirrors Root.SameValue q.quadraticOutcome := by
  unfold Polynomial.quadraticOutcome
  dsimp only
  rw [h.discriminant, h.complexRoot ha, h.divisor_eq ha, h.quotient]
  split
  · have hfirst := h.numerator p.discriminant.sqrt
    have hsecond := h.numerator (-p.discriminant.sqrt)
    rw [neg_neg] at hsecond
    refine ⟨rfl, rfl, rfl, .cons ?_ (.cons ?_ .nil)⟩
    · exact .real (sameValue_div_neg hfirst _).symm
    · exact .real (sameValue_div_neg hsecond _).symm
  split
  · exact Outcome.mirrors_of_roots_eq (by decide) _ _ rfl
  · exact Outcome.mirrors_of_roots_eq (by decide) _ _ rfl

theorem mirrors_solveConstant {c c' : Binary64} (h : c'.isZero = c.isZero) (degree : Int) :
    (solveConstant c degree).Mirrors Root.SameValue (solveConstant c' degree) := by
  unfold solveConstant
  rw [h]
  refine Outcome.mirrors_of_roots_eq ?_ _ _ rfl
  split <;> decide

theorem Opposite.outcome (h : p.Opposite q) (hp : p.HasLead) :
    p.outcome.Mirrors Root.SameValue q.outcome := by
  unfold Polynomial.outcome
  rw [h.degree]
  split
  · exact Outcome.mirrors_of_roots_eq (by decide) _ _ rfl
  split
  · rename_i h2
    have ha := hp (by omega)
    rw [h2] at ha
    exact h.quadraticOutcome ha
  have hconstant : (q.coefficient 0).isZero = (p.coefficient 0).isZero := by
    rw [(h.coefficient 0).isZero, isZero_neg]
  split
  · rename_i h1
    have ha := hp (by omega)
    rw [h1] at ha
    have ha' : (q.coefficient 1).isZero = false := by rwa [(h.coefficient 1).isZero, isZero_neg]
    unfold solveLinear
    simp only [ha, ha', Bool.false_eq_true, if_false]
    refine Outcome.mirrors_of_roots_eq (by decide) _ _ ?_
    rw [h.coefficient_eq ha, h.quotient]
  · exact mirrors_solveConstant hconstant 0

/-! ## Overflows -/

theorem Opposite.all_isFinite (h : p.Opposite q) (hp : p.terms.all (·.coefficient.isFinite)) :
    q.terms.all (·.coefficient.isFinite) := by
  refine List.all_eq_true.2 fun t ht => ?_
  rw [← coefficient_of_mem _ ht, (h.coefficient _).isFinite, isFinite_neg]
  exact isFinite_coefficient hp _

theorem Opposite.all_isFinite_eq (h : p.Opposite q) :
    q.terms.all (·.coefficient.isFinite) = p.terms.all (·.coefficient.isFinite) := by
  rw [Bool.eq_iff_iff]
  exact ⟨h.symm.all_isFinite, h.all_isFinite⟩

theorem Opposite.overflows (h : p.Opposite q) (hp : p.HasLead) {e : EquationError}
    (ho : p.Overflows e) : ∃ f, q.Overflows f := by
  cases ho with
  | coefficient hc => exact ⟨_, .coefficient (h.all_isFinite_eq.trans hc)⟩
  | discriminant hc hd hf =>
    exact ⟨_, .discriminant (h.all_isFinite hc) (h.degree.trans hd) (by rwa [h.discriminant])⟩
  | root hc hd hr hf =>
    obtain ⟨s, hs, hsf⟩ := (h.outcome hp).exists_not_isFinite hr hf
    refine ⟨_, .root (h.all_isFinite hc) (fun h2 => ?_) hs hsf⟩
    rw [h.discriminant]
    exact hd (h.degree.symm.trans h2)

theorem Opposite.modulusOverflows (h : p.Opposite q) (hp : p.HasLead) (hm : p.ModulusOverflows) :
    q.ModulusOverflows := by
  obtain ⟨hc, h2, hf, hneg, hroot, hmodulus⟩ := hm
  have ha := hp (by omega)
  rw [h2] at ha
  rw [← h.discriminant] at hf hneg
  rw [← h.complexRoot ha] at hroot hmodulus
  exact ⟨h.all_isFinite hc, h.degree.trans h2, hf, hneg, hroot, hmodulus⟩

theorem Overflows.errorClass_eq {e f : EquationError} (he : p.Overflows e) (hf : q.Overflows f) :
    f.errorClass = e.errorClass := by
  cases he <;> cases hf <;> rfl

end Polynomial

/-! ## Solving -/

/-- Both end with results that are related, or by errors of one class, or by the same fault. -/
inductive EndsAlike {α : Type} (R : α → α → Prop) : Except Fault α → Except Fault α → Prop
  | solved {x y : α} : R x y → EndsAlike R (.ok x) (.ok y)
  | rejected {e f : EquationError} : f.errorClass = e.errorClass →
      EndsAlike R (.error (.equation e)) (.error (.equation f))
  | failed {f : Fault} : (∀ e, f ≠ .equation e) → EndsAlike R (.error f) (.error f)

theorem EndsAlike.imp {α : Type} {R S : α → α → Prop} {x y : Except Fault α}
    (h : EndsAlike R x y) (hrs : ∀ a b, R a b → S a b) : EndsAlike S x y := by
  cases h with
  | solved hab => exact .solved (hrs _ _ hab)
  | rejected hclass => exact .rejected hclass
  | failed hf => exact .failed hf

namespace Polynomial

variable {p q : Polynomial}

theorem Opposite.solve (h : p.Opposite q) (hp : p.HasLead) :
    EndsAlike (fun o o' => o.Mirrors Root.SameValue o' ∧ ∀ r ∈ o.roots, r.isFinite)
      p.solve q.solve := by
  have hq := h.hasLead hp
  obtain ⟨result, hresult⟩ := exists_solves p
  rw [(solve_eq_iff hp).2 hresult]
  cases hresult with
  | overflow ho =>
    obtain ⟨f, hf⟩ := h.overflows hp ho
    rw [hf.solve_eq hq]
    exact .rejected (ho.errorClass_eq hf)
  | modulus hm =>
    rw [(h.modulusOverflows hp hm).solve_eq hq]
    exact .failed fun e => Fault.noConfusion
  | outcome hnone hm =>
    have hnone' (f : EquationError) : ¬ q.Overflows f := fun hf => by
      obtain ⟨e, he⟩ := h.symm.overflows hq hf
      exact hnone e he
    rw [solve_eq_outcome hq hnone' fun hm' => hm (h.symm.modulusOverflows hq hm')]
    exact .solved ⟨h.outcome hp, (isBounded_of_not_overflows hnone).roots⟩

end Polynomial

/-! ## Reports -/

namespace Report

/-- The same report, with the two roots of a pair in the opposite order. -/
structure Mirrors (r r' : Report) : Prop where
  outcome : r.outcome.Mirrors Root.NumEq r'.outcome
  solutions : r'.solutions = r.outcome.kind.mirrored r.solutions
  checks : r'.checks = r.outcome.kind.mirrored r.checks

variable {p q : Polynomial}

theorem mirrors_of_opposite (h : p.Opposite q) {o o' : Outcome}
    (ho : o.Mirrors Root.SameValue o') (hfinite : ∀ r ∈ o.roots, r.isFinite)
    (text text' : List Char) (ls ls' : List (List Char)) :
    Mirrors ⟨text, p, o, ls⟩ ⟨text', q, o', ls'⟩ where
  outcome := ho.imp fun r hr _ hrs => hrs.numEq (hfinite r hr)
  solutions := ho.map_eq fun _ _ => Root.SameValue.fixedText
  checks := by
    refine ho.map_eq fun r s hrs => ?_
    rw [hrs.fixedText, h.residual hrs]

theorem endsAlike_ofPolynomial (h : p.Opposite q) (hp : p.HasLead) (text text' : List Char) :
    EndsAlike Mirrors (ofPolynomial text p) (ofPolynomial text' q) := by
  have hq := h.hasLead hp
  have hsolve := h.solve hp
  generalize hx : p.solve = x, hy : q.solve = y at hsolve
  cases hsolve with
  | solved hoo =>
    obtain ⟨ls, hls⟩ : ∃ ls, ofPolynomial text p = .ok ⟨text, p, _, ls⟩ := exists_ofPolynomial hp hx
    obtain ⟨ls', hls'⟩ : ∃ ls, ofPolynomial text' q = .ok ⟨text', q, _, ls⟩ :=
      exists_ofPolynomial hq hy
    rw [hls, hls']
    exact .solved (mirrors_of_opposite h hoo.1 hoo.2 _ _ _ _)
  | rejected hclass =>
    rw [(ofPolynomial_eq_error_iff hp).2 hx, (ofPolynomial_eq_error_iff hq).2 hy]
    exact .rejected hclass
  | failed hf =>
    rw [(ofPolynomial_eq_error_iff hp).2 hx, (ofPolynomial_eq_error_iff hq).2 hy]
    exact .failed hf

end Report

namespace Equation

open Report

variable {left right : List Char} {xs ys : List Term}

theorem opposite_swapped (hl : sideTerms left = .ok xs) (hr : sideTerms right = .ok ys)
    (hxs : (xs.map Term.exponent).Nodup) (hys : (ys.map Term.exponent).Nodup) :
    (Polynomial.reduce (xs ++ ys.map Term.neg)).Opposite
      (Polynomial.reduce (ys ++ xs.map Term.neg)) := by
  refine Polynomial.opposite_reduce_difference hxs hys fun t ht => ?_
  rcases List.mem_append.1 ht with ht | ht
  · exact (isReadExponent_of_sideTerms (readable_of_sideTerms hl) hl t ht).1
  · exact (isReadExponent_of_sideTerms (readable_of_sideTerms hr) hr t ht).1

/-- Solving an equation without like terms on a side and solving it with its sides swapped end
alike: by errors of one class, or with the same kind, degree and discriminant and the same texts of
roots and residuals, in the opposite order for two real roots. So do solving any reduced polynomial
and solving it with all coefficients negated. -/
theorem swapped_solved :
    (∀ {left right : List Char} {xs ys : List Term},
      sideTerms left = .ok xs → sideTerms right = .ok ys →
      (xs.map Term.exponent).Nodup → (ys.map Term.exponent).Nodup →
      EndsAlike Mirrors (ofEquation (left ++ '=' :: right)) (ofEquation (right ++ '=' :: left))) ∧
    ∀ ts : List Term, EndsAlike (Outcome.Mirrors Root.NumEq)
      (Polynomial.reduce ts).solve (Polynomial.reduce ts).negated.solve := by
  refine ⟨fun hl hr hxs hys => ?_, fun ts => ?_⟩
  · rw [ofEquation_eq_ofPolynomial (polynomial_of_sideTerms hl hr),
      ofEquation_eq_ofPolynomial (polynomial_of_sideTerms hr hl)]
    exact endsAlike_ofPolynomial (opposite_swapped hl hr hxs hys) (Polynomial.hasLead_reduce _) _ _
  · have hsolve := (Polynomial.opposite_negated _).solve (Polynomial.hasLead_reduce ts)
    exact hsolve.imp fun o o' hoo => hoo.1.imp fun r hr _ hrs => hrs.numEq (hoo.2 r hr)

def squareSide : List Char := "X^2 + 2*X^0".toList

def lineSide : List Char := "3*X^1".toList

/-- The two roots of `x^2 + 2 = 3*x` change places. -/
theorem swapped_solved_pair :
    EndsAlike Mirrors (ofEquation (squareSide ++ '=' :: lineSide))
      (ofEquation (lineSide ++ '=' :: squareSide)) ∧
    (Polynomial.reduce [⟨1, 2⟩, ⟨2, 0⟩, ⟨-3, 1⟩]).solve =
      .ok ⟨.pair, 2, some 1, [.real 2, .real 1]⟩ ∧
    (Polynomial.reduce [⟨3, 1⟩, ⟨-1, 2⟩, ⟨-2, 0⟩]).solve =
      .ok ⟨.pair, 2, some 1, [.real 1, .real 2]⟩ := by
  have hl : sideTerms squareSide = .ok [⟨1, 2⟩, ⟨2, 0⟩] := by decide +kernel
  have hr : sideTerms lineSide = .ok [⟨3, 1⟩] := by decide +kernel
  exact ⟨swapped_solved.1 hl hr (by decide) (by decide), by decide +kernel, by decide +kernel⟩

end Equation

end PolySolve
