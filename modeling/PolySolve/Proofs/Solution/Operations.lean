import PolySolve.Proofs.Binary64.Order
import PolySolve.Proofs.Solution.Overflow

/-!
# The operations of a solution

Solving again, with a record of each arithmetic operation in the order in which
it is carried out. The record shows what the outcome does not: an infinity that
cancels, or that is divided away, would be an operand of an operation whose
result is reported, and one of the checks sees it.

* `Recorded`: a computation with its operations;
* `result_recordedSolve`: recording changes nothing of what solving comes to;
* `quadraticOperations`, `operations_of_isBounded`: the operations of degree 2;
* `isDefined_recordedSolve`: every divisor is finite and not zero, and no root
  is taken of a value below zero;
* `isFinite_recordedSolve`, `isFinite_sums_of_front`: if an outcome is
  reported, no result of an operation and no partial sum was infinite or nan.
-/

namespace PolySolve

open Binary64

-- The elaborator must not evaluate these powers of two.
attribute [local irreducible] overflowUnits unitsPerOne

/-- An arithmetic operation and its operands. -/
inductive Operation where
  | add (x y : Binary64)
  | sub (x y : Binary64)
  | mul (x y : Binary64)
  | div (x y : Binary64)
  | sqrt (x : Binary64)
  deriving DecidableEq

namespace Operation

def result : Operation → Binary64
  | add x y => x + y
  | sub x y => x - y
  | mul x y => x * y
  | div x y => x / y
  | sqrt x => x.sqrt

/-- A divisor is finite and not zero; a root is of a finite value that is not below zero. -/
def IsDefined : Operation → Prop
  | div _ y => y.isFinite ∧ y.isZero = false
  | sqrt x => x.isFinite ∧ ¬ x < zero
  | _ => True

end Operation

/-! ## Recording -/

/-- What a computation comes to, and the operations that it has carried out. -/
structure Recorded (α : Type) where
  operations : List Operation
  result : Except Fault α

namespace Recorded

variable {α β : Type}

/-- No operation is carried out after a fault. -/
def andThen (x : Recorded α) (f : α → Recorded β) : Recorded β :=
  match x.result with
  | .error e => ⟨x.operations, .error e⟩
  | .ok a => ⟨x.operations ++ (f a).operations, (f a).result⟩

instance : Monad Recorded where
  pure a := ⟨[], .ok a⟩
  bind := andThen

def perform (op : Operation) : Recorded Binary64 := ⟨[op], .ok op.result⟩

/-- A step that carries out no operation. -/
def silent (r : Except Fault α) : Recorded α := ⟨[], r⟩

def quotient (x y : Binary64) : Recorded Binary64 := ⟨[.div x y], divide x y⟩

/-- All operations are as a predicate says. -/
def All (P : Operation → Prop) (x : Recorded α) : Prop := ∀ op ∈ x.operations, P op

@[simp] theorem result_bind (x : Recorded α) (f : α → Recorded β) :
    (x >>= f).result = x.result >>= fun a => (f a).result := by
  show (x.andThen f).result = _
  unfold andThen
  cases x.result <;> rfl

@[simp] theorem result_pure (a : α) : (pure a : Recorded α).result = .ok a := rfl

@[simp] theorem result_perform (op : Operation) : (perform op).result = .ok op.result := rfl

@[simp] theorem result_silent (r : Except Fault α) : (silent r).result = r := rfl

@[simp] theorem result_quotient (x y : Binary64) : (quotient x y).result = divide x y := rfl

/-- What a step without a fault has carried out comes before all else. -/
theorem operations_bind {x : Recorded α} {a : α} (hx : x.result = .ok a) (f : α → Recorded β) :
    (x >>= f).operations = x.operations ++ (f a).operations := by
  show (x.andThen f).operations = _
  unfold andThen
  rw [hx]

/-- What carries out nothing adds nothing, also after a fault. -/
theorem operations_bind_of_eq_nil {x : Recorded α} {f : α → Recorded β}
    (hf : ∀ a, (f a).operations = []) : (x >>= f).operations = x.operations := by
  show (x.andThen f).operations = _
  unfold andThen
  cases x.result with
  | error e => rfl
  | ok a =>
    show x.operations ++ (f a).operations = x.operations
    rw [hf, List.append_nil]

theorem operations_perform_bind (op : Operation) (f : Binary64 → Recorded β) :
    (perform op >>= f).operations = op :: (f op.result).operations := rfl

theorem operations_quotient_bind {x y : Binary64} (hy : y.isZero = false)
    (f : Binary64 → Recorded β) :
    (quotient x y >>= f).operations = .div x y :: (f (x / y)).operations := by
  have hresult : (quotient x y).result = .ok (x / y) := by
    rw [result_quotient, divide, hy]
    rfl
  exact operations_bind hresult f

variable {P : Operation → Prop}

theorem all_bind {x : Recorded α} {f : α → Recorded β} (hx : x.All P)
    (hf : ∀ a, x.result = .ok a → (f a).All P) : (x >>= f).All P := by
  show (x.andThen f).All P
  unfold andThen
  cases hr : x.result with
  | error e => exact hx
  | ok a =>
    intro op hop
    rcases List.mem_append.1 hop with hop | hop
    · exact hx op hop
    · exact hf a hr op hop

theorem all_pure (a : α) : (pure a : Recorded α).All P := fun _ h => absurd h List.not_mem_nil

theorem all_silent (r : Except Fault α) : (silent r).All P := fun _ h => absurd h List.not_mem_nil

theorem all_perform {op : Operation} (h : P op) : (perform op).All P :=
  List.forall_mem_singleton.2 h

theorem all_quotient {x y : Binary64} (h : P (.div x y)) : (quotient x y).All P :=
  List.forall_mem_singleton.2 h

/-- An operation, and then what is made of its result. -/
theorem all_perform_bind {op : Operation} {f : Binary64 → Recorded β} (h : P op)
    (hf : (f op.result).All P) : (perform op >>= f).All P :=
  all_bind (all_perform h) fun _ ha => Except.ok.inj ha ▸ hf

theorem all_quotient_bind {x y : Binary64} {f : Binary64 → Recorded β} (h : P (.div x y))
    (hf : (f (x / y)).All P) : (quotient x y >>= f).All P := by
  refine all_bind (all_quotient h) fun a ha => ?_
  have hdiv : divide x y = .ok a := ha
  unfold divide at hdiv
  split at hdiv
  · contradiction
  · exact Except.ok.inj hdiv ▸ hf

end Recorded

/-! ## Solving -/

namespace Polynomial

open Recorded

variable (p : Polynomial)

def recordedDiscriminant : Recorded Binary64 := do
  let square ← perform (.mul (p.coefficient 1) (p.coefficient 1))
  let fourfold ← perform (.mul 4 (p.coefficient 2))
  let product ← perform (.mul fourfold (p.coefficient 0))
  perform (.sub square product)

def recordedPair (delta : Binary64) : Recorded Outcome := do
  let root ← perform (.sqrt delta)
  let sum ← perform (.add (-p.coefficient 1) root)
  let divisor ← perform (.mul 2 (p.coefficient 2))
  let first ← quotient sum divisor
  let difference ← perform (.sub (-p.coefficient 1) root)
  let divisor ← perform (.mul 2 (p.coefficient 2))
  let second ← quotient difference divisor
  return ⟨.pair, 2, some delta, [.real first, .real second]⟩

def recordedDouble (delta : Binary64) : Recorded Outcome := do
  let divisor ← perform (.mul 2 (p.coefficient 2))
  let ratio ← quotient (-p.coefficient 1) divisor
  let root ← perform (.add ratio zero)
  return ⟨.single, 2, some delta, [.real root]⟩

def recordedConjugate (delta : Binary64) : Recorded Outcome := do
  let divisor ← perform (.mul 2 (p.coefficient 2))
  let ratio ← quotient (-p.coefficient 1) divisor
  let re ← perform (.add ratio zero)
  let root ← perform (.sqrt (-delta))
  let divisor ← perform (.mul 2 (p.coefficient 2))
  let im ← quotient root divisor
  return ⟨.complexPair, 2, some delta, [.complex ⟨re, im.abs⟩, .complex ⟨re, -im.abs⟩]⟩

def recordedQuadratic : Recorded Outcome := do
  let delta ← p.recordedDiscriminant
  if !delta.isFinite then silent (.error (.equation (.discriminantOverflow delta)))
  else if .zero < delta then p.recordedPair delta
  else if delta.isZero then p.recordedDouble delta
  else p.recordedConjugate delta

def recordedLinear : Recorded Outcome :=
  if (p.coefficient 1).isZero then return solveConstant (p.coefficient 0) 1
  else do
    let ratio ← perform (.div (-p.coefficient 0) (p.coefficient 1))
    let root ← perform (.add ratio zero)
    return ⟨.single, 1, none, [.real root]⟩

def recordedByDegree : Recorded Outcome :=
  if 2 < p.degree then return ⟨.degreeTooHigh, p.degree, none, []⟩
  else if p.degree = 2 then p.recordedQuadratic
  else if p.degree = 1 then p.recordedLinear
  else return solveConstant (p.coefficient 0) 0

/-- Solving, with the operations up to the roots. -/
def recordedSolve : Recorded Outcome := do
  if p.terms.all (·.coefficient.isFinite) then
    let outcome ← p.recordedByDegree
    if ← silent (Root.allFinite outcome.roots) then return outcome
    else silent (.error (.equation (.rootOverflow outcome.roots)))
  else silent (.error (.equation (.coefficientOverflow p)))

theorem result_recordedDiscriminant : p.recordedDiscriminant.result = .ok p.discriminant := rfl

theorem result_recordedQuadratic : p.recordedQuadratic.result = p.solveQuadratic := by
  unfold recordedQuadratic solveQuadratic
  rw [result_bind, result_recordedDiscriminant]
  show Recorded.result (if _ then _ else _) = _
  dsimp only
  split
  · rfl
  split
  · simp only [recordedPair, result_bind, result_perform, result_quotient, result_pure]
    rfl
  split
  · simp only [recordedDouble, result_bind, result_perform, result_quotient, result_pure]
    rfl
  · simp only [recordedConjugate, result_bind, result_perform, result_quotient, result_pure]
    rfl

theorem result_recordedLinear : p.recordedLinear.result = .ok p.solveLinear := by
  unfold recordedLinear solveLinear
  dsimp only
  split <;> rfl

theorem result_recordedByDegree : p.recordedByDegree.result = p.solveByDegree := by
  unfold recordedByDegree solveByDegree
  split
  · rfl
  split
  · exact p.result_recordedQuadratic
  split
  · exact p.result_recordedLinear
  · rfl

/-- The record is one of solving itself. -/
theorem result_recordedSolve : p.recordedSolve.result = p.solve := by
  unfold recordedSolve solve
  split
  · rw [result_bind, result_recordedByDegree]
    congr 1
    funext o
    rw [result_bind, result_silent]
    congr 1
    funext finite
    split <;> rfl
  · rfl

/-! ## Which operations there are -/

section

variable {p} {delta : Binary64} {P : Operation → Prop}

theorem all_recordedDiscriminant (hsquare : P (.mul (p.coefficient 1) (p.coefficient 1)))
    (hfourfold : P (.mul 4 (p.coefficient 2)))
    (hproduct : P (.mul (4 * p.coefficient 2) (p.coefficient 0)))
    (hdifference : P (.sub (p.coefficient 1 * p.coefficient 1)
      (4 * p.coefficient 2 * p.coefficient 0))) :
    p.recordedDiscriminant.All P :=
  all_perform_bind hsquare <| all_perform_bind hfourfold <| all_perform_bind hproduct <|
    all_perform hdifference

theorem all_recordedPair (hroot : P (.sqrt delta)) (hdivisor : P (.mul 2 (p.coefficient 2)))
    (hsum : P (.add (-p.coefficient 1) delta.sqrt))
    (hfirst : P (.div (-p.coefficient 1 + delta.sqrt) (2 * p.coefficient 2)))
    (hdifference : P (.sub (-p.coefficient 1) delta.sqrt))
    (hsecond : P (.div (-p.coefficient 1 - delta.sqrt) (2 * p.coefficient 2))) :
    (p.recordedPair delta).All P :=
  all_perform_bind hroot <| all_perform_bind hsum <| all_perform_bind hdivisor <|
    all_quotient_bind hfirst <| all_perform_bind hdifference <| all_perform_bind hdivisor <|
    all_quotient_bind hsecond <| all_pure _

theorem all_recordedDouble (hdivisor : P (.mul 2 (p.coefficient 2)))
    (hquotient : P (.div (-p.coefficient 1) (2 * p.coefficient 2)))
    (hroot : P (.add (-p.coefficient 1 / (2 * p.coefficient 2)) zero)) :
    (p.recordedDouble delta).All P :=
  all_perform_bind hdivisor <| all_quotient_bind hquotient <| all_perform_bind hroot <| all_pure _

theorem all_recordedConjugate (hdivisor : P (.mul 2 (p.coefficient 2)))
    (hquotient : P (.div (-p.coefficient 1) (2 * p.coefficient 2)))
    (hre : P (.add (-p.coefficient 1 / (2 * p.coefficient 2)) zero))
    (hroot : P (.sqrt (-delta))) (him : P (.div (-delta).sqrt (2 * p.coefficient 2))) :
    (p.recordedConjugate delta).All P :=
  all_perform_bind hdivisor <| all_quotient_bind hquotient <| all_perform_bind hre <|
    all_perform_bind hroot <| all_perform_bind hdivisor <| all_quotient_bind him <| all_pure _

theorem all_recordedQuadratic (hdiscriminant : p.recordedDiscriminant.All P)
    (hpair : p.discriminant.isFinite → zero < p.discriminant →
      (p.recordedPair p.discriminant).All P)
    (hdouble : p.discriminant.isFinite → ¬ zero < p.discriminant → p.discriminant.isZero →
      (p.recordedDouble p.discriminant).All P)
    (hconjugate : p.discriminant.isFinite → p.discriminant < zero →
      (p.recordedConjugate p.discriminant).All P) :
    p.recordedQuadratic.All P := by
  refine all_bind hdiscriminant fun delta hdelta => ?_
  obtain rfl : p.discriminant = delta := Except.ok.inj hdelta
  cases hf : p.discriminant.isFinite with
  | false => exact all_silent _
  | true =>
    by_cases hpos : zero < p.discriminant
    · simpa [hpos] using hpair hf hpos
    cases hz : p.discriminant.isZero with
    | true => simpa [hpos] using hdouble hf hpos hz
    | false => simpa [hpos] using hconjugate hf ((lt_zero_iff hf).2 ⟨hpos, hz⟩)

theorem all_recordedLinear (hquotient : (p.coefficient 1).isZero = false →
      P (.div (-p.coefficient 0) (p.coefficient 1)))
    (hroot : (p.coefficient 1).isZero = false →
      P (.add (-p.coefficient 0 / p.coefficient 1) zero)) :
    p.recordedLinear.All P := by
  unfold recordedLinear
  split
  · exact all_pure _
  · rename_i h0
    have h0 := Bool.eq_false_iff.2 h0
    exact all_perform_bind (hquotient h0) <| all_perform_bind (hroot h0) <| all_pure _

theorem all_recordedByDegree (hquadratic : p.degree = 2 → p.recordedQuadratic.All P)
    (hlinear : p.degree = 1 → p.recordedLinear.All P) : p.recordedByDegree.All P := by
  unfold recordedByDegree
  split
  · exact all_pure _
  split
  · exact hquadratic ‹_›
  split
  · exact hlinear ‹_›
  · exact all_pure _

theorem all_recordedSolve
    (h : p.terms.all (·.coefficient.isFinite) → p.recordedByDegree.All P) :
    p.recordedSolve.All P := by
  unfold recordedSolve
  split
  · refine all_bind (h ‹_›) fun o _ => ?_
    refine all_bind (all_silent _) fun finite _ => ?_
    split
    · exact all_pure _
    · exact all_silent _
  · exact all_silent _

end

/-! ## The operations of degree 2 -/

/-- The operations for `a * x^2 + b * x + c`, in their order: those of the discriminant, and then
those of two real roots, of one or of a complex one and its conjugate. -/
def quadraticOperations (a b c : Binary64) : List Operation :=
  let delta := b * b - 4 * a * c
  [.mul b b, .mul 4 a, .mul (4 * a) c, .sub (b * b) (4 * a * c)] ++
    if zero < delta then
      [.sqrt delta,
        .add (-b) delta.sqrt, .mul 2 a, .div (-b + delta.sqrt) (2 * a),
        .sub (-b) delta.sqrt, .mul 2 a, .div (-b - delta.sqrt) (2 * a)]
    else if delta.isZero then
      [.mul 2 a, .div (-b) (2 * a), .add (-b / (2 * a)) zero]
    else
      [.mul 2 a, .div (-b) (2 * a), .add (-b / (2 * a)) zero,
        .sqrt (-delta), .mul 2 a, .div (-delta).sqrt (2 * a)]

section

variable {p} {delta : Binary64}

theorem operations_recordedPair (ha : (2 * p.coefficient 2).isZero = false) :
    (p.recordedPair delta).operations =
      [.sqrt delta, .add (-p.coefficient 1) delta.sqrt, .mul 2 (p.coefficient 2),
        .div (-p.coefficient 1 + delta.sqrt) (2 * p.coefficient 2),
        .sub (-p.coefficient 1) delta.sqrt, .mul 2 (p.coefficient 2),
        .div (-p.coefficient 1 - delta.sqrt) (2 * p.coefficient 2)] := by
  unfold recordedPair
  rw [operations_perform_bind, operations_perform_bind, operations_perform_bind]
  dsimp only [Operation.result]
  rw [operations_quotient_bind ha, operations_perform_bind, operations_perform_bind]
  dsimp only [Operation.result]
  rw [operations_quotient_bind ha]
  rfl

theorem operations_recordedDouble (ha : (2 * p.coefficient 2).isZero = false) :
    (p.recordedDouble delta).operations =
      [.mul 2 (p.coefficient 2), .div (-p.coefficient 1) (2 * p.coefficient 2),
        .add (-p.coefficient 1 / (2 * p.coefficient 2)) zero] := by
  unfold recordedDouble
  rw [operations_perform_bind]
  dsimp only [Operation.result]
  rw [operations_quotient_bind ha]
  rfl

theorem operations_recordedConjugate (ha : (2 * p.coefficient 2).isZero = false) :
    (p.recordedConjugate delta).operations =
      [.mul 2 (p.coefficient 2), .div (-p.coefficient 1) (2 * p.coefficient 2),
        .add (-p.coefficient 1 / (2 * p.coefficient 2)) zero, .sqrt (-delta),
        .mul 2 (p.coefficient 2), .div (-delta).sqrt (2 * p.coefficient 2)] := by
  unfold recordedConjugate
  rw [operations_perform_bind]
  dsimp only [Operation.result]
  rw [operations_quotient_bind ha, operations_perform_bind, operations_perform_bind,
    operations_perform_bind]
  dsimp only [Operation.result]
  rw [operations_quotient_bind ha]
  rfl

theorem operations_recordedQuadratic (ha : (2 * p.coefficient 2).isZero = false)
    (hd : p.discriminant.isFinite) :
    p.recordedQuadratic.operations =
      quadraticOperations (p.coefficient 2) (p.coefficient 1) (p.coefficient 0) := by
  have hfinite : (!p.discriminant.isFinite) = false := by rw [hd]; rfl
  unfold recordedQuadratic quadraticOperations
  rw [operations_bind p.result_recordedDiscriminant, hfinite]
  refine congrArg (p.recordedDiscriminant.operations ++ ·) ?_
  rw [if_neg Bool.false_ne_true]
  show (if zero < p.discriminant then _ else _ : Recorded Outcome).operations =
    if zero < p.discriminant then _ else if p.discriminant.isZero then _ else _
  split
  · exact operations_recordedPair ha
  split
  · exact operations_recordedDouble ha
  · exact operations_recordedConjugate ha

/-- The checks on the roots carry out no operation. -/
theorem operations_recordedSolve (hc : p.terms.all (·.coefficient.isFinite)) :
    p.recordedSolve.operations = p.recordedByDegree.operations := by
  unfold recordedSolve
  rw [if_pos hc]
  refine operations_bind_of_eq_nil fun o => ?_
  rw [operations_bind_of_eq_nil fun finite => ?_]
  · rfl
  · split <;> rfl

/-- If an outcome of degree 2 is reported, these are the operations that lead to it. -/
theorem operations_of_isBounded (hlead : p.HasLead) (h : p.IsBounded) (h2 : p.degree = 2) :
    p.recordedSolve.operations =
      quadraticOperations (p.coefficient 2) (p.coefficient 1) (p.coefficient 0) := by
  have ha := hlead.isZero_coefficient h2 (by decide)
  have hquadratic : p.recordedByDegree = p.recordedQuadratic := by
    rw [recordedByDegree, if_neg (by omega), if_pos h2]
  rw [operations_recordedSolve h.coefficients, hquadratic]
  exact operations_recordedQuadratic (isZero_two_mul ha) (h.discriminant h2)

end

/-! ## Divisors and roots -/

variable {p}

theorem isFinite_coefficient (h : p.terms.all (·.coefficient.isFinite)) (e : Int) :
    (p.coefficient e).isFinite := by
  rcases p.coefficient_eq_or e with ⟨t, ht, -, he⟩ | ⟨-, he⟩
  · rw [he]
    exact List.all_eq_true.1 h t ht
  · rw [he]
    rfl

/-- No division by zero, and no root of a value below zero, however solving ends. -/
theorem isDefined_recordedSolve (hlead : p.HasLead) : p.recordedSolve.All Operation.IsDefined := by
  refine all_recordedSolve fun hc => all_recordedByDegree (fun h2 => ?_) fun h1 => ?_
  · have ha := isZero_two_mul (hlead.isZero_coefficient h2 (by decide))
    refine all_recordedQuadratic (all_recordedDiscriminant trivial trivial trivial trivial)
      (fun hd hpos => ?_) (fun hd _ _ => ?_) fun hd hneg => ?_
    · have hdivisor := isFinite_divisor hd
      have hnot : ¬ p.discriminant < zero := fun hneg => ((lt_zero_iff hd).1 hneg).1 hpos
      exact all_recordedPair ⟨hd, hnot⟩ trivial trivial ⟨hdivisor, ha⟩ trivial ⟨hdivisor, ha⟩
    · exact all_recordedDouble trivial ⟨isFinite_divisor hd, ha⟩ trivial
    · have hdivisor := isFinite_divisor hd
      have hdn : (-p.discriminant).isFinite := by rwa [isFinite_neg]
      have hnot : ¬ -p.discriminant < zero := by
        rw [lt_iff_units hd rfl, units_zero] at hneg
        rw [lt_iff_units hdn rfl, units_zero, units_neg]
        omega
      exact all_recordedConjugate trivial ⟨hdivisor, ha⟩ trivial ⟨hdn, hnot⟩ ⟨hdivisor, ha⟩
  · exact all_recordedLinear (fun h0 => ⟨isFinite_coefficient hc 1, h0⟩) fun _ => trivial

/-! ## Finite results -/

/-- With finite roots every operation of a quadratic equation has a finite result. -/
theorem isFinite_recordedQuadratic (hd : p.discriminant.isFinite)
    (hroots : ∀ r ∈ p.quadraticOutcome.roots, r.isFinite) :
    p.recordedQuadratic.All fun op => op.result.isFinite := by
  have hdivisor := isFinite_divisor hd
  obtain ⟨hsquare, hproduct⟩ := isFinite_of_sub hd
  have hfourfold := (isFinite_of_mul hproduct).1
  refine all_recordedQuadratic (all_recordedDiscriminant hsquare hfourfold hproduct hd)
    (fun _ hpos => ?_) (fun _ hpos hz => ?_) fun _ hneg => ?_
  · simp only [quadraticOutcome, if_pos hpos] at hroots
    have hfirst : (_ / _ : Binary64).isFinite := hroots (.real _) List.mem_cons_self
    have hsecond : (_ / _ : Binary64).isFinite :=
      hroots (.real _) (List.mem_cons_of_mem _ List.mem_cons_self)
    have hsum := isFinite_of_div hfirst
    exact all_recordedPair (isFinite_of_add hsum).2 hdivisor hsum hfirst (isFinite_of_div hsecond)
      hsecond
  · simp only [quadraticOutcome, if_neg hpos, hz, if_true] at hroots
    have hroot : (_ + zero : Binary64).isFinite := hroots (.real _) List.mem_cons_self
    exact all_recordedDouble hdivisor (isFinite_of_add hroot).1 hroot
  · obtain ⟨hpos, hz⟩ := (lt_zero_iff hd).1 hneg
    simp only [quadraticOutcome, if_neg hpos, hz] at hroots
    have hroot : p.complexRoot.isFinite := hroots (.complex _) List.mem_cons_self
    obtain ⟨hre, him⟩ := Bool.and_eq_true_iff.1 hroot
    have hre : (_ + zero : Binary64).isFinite := hre
    have him : ((-p.discriminant).sqrt / (2 * p.coefficient 2)).isFinite := by
      rwa [complexRoot, isFinite_abs] at him
    exact all_recordedConjugate hdivisor (isFinite_of_add hre).1 hre (isFinite_of_div him) him

/-- With a finite outcome every operation has a finite result. -/
theorem isFinite_recordedSolve (hlead : p.HasLead) (h : p.IsBounded) :
    p.recordedSolve.All fun op => op.result.isFinite := by
  have hroots := h.roots
  unfold outcome at hroots
  refine all_recordedSolve fun _ => all_recordedByDegree (fun h2 => ?_) fun h1 => ?_
  · rw [if_neg (by omega), if_pos h2] at hroots
    exact isFinite_recordedQuadratic (h.discriminant h2) hroots
  · have ha := hlead.isZero_coefficient h1 (by decide)
    rw [if_neg (by omega), if_neg (by omega), if_pos h1, solveLinear] at hroots
    simp only [ha] at hroots
    have hroot : (-p.coefficient 0 / p.coefficient 1 + zero).isFinite :=
      hroots (.real _) List.mem_cons_self
    exact all_recordedLinear (fun _ => (isFinite_of_add hroot).1) fun _ => hroot

/-! ## Partial sums -/

/-- A sum that overflows stays infinite or nan. -/
theorem isFinite_of_coefficient_add {p : Polynomial} {t : Term} {e : Int}
    (h : ((p.add t).coefficient e).isFinite) : (p.coefficient e).isFinite := by
  rw [coefficient_add] at h
  split at h
  · exact (isFinite_of_add h).1
  · exact h

theorem isFinite_of_coefficient_foldl {ts : List Term} {p : Polynomial} {e : Int}
    (h : ((ts.foldl add p).coefficient e).isFinite) : (p.coefficient e).isFinite := by
  induction ts generalizing p with
  | nil => exact h
  | cons t ts ih => exact isFinite_of_coefficient_add (ih h)

/-- The sums after the first few terms are finite if the sums after all of them are. -/
theorem isFinite_sums_of_front {us ts : List Term} (hus : us <+: ts) {e : Int}
    (h : ((sums ts).coefficient e).isFinite) : ((sums us).coefficient e).isFinite := by
  obtain ⟨rest, rfl⟩ := hus
  rw [sums, List.foldl_append] at h
  exact isFinite_of_coefficient_foldl h

/-- A sum is kept, or it is zero. -/
theorem isFinite_sums {ts : List Term} (h : (reduce ts).terms.all (·.coefficient.isFinite))
    (e : Int) : ((sums ts).coefficient e).isFinite := by
  rcases (sums ts).coefficient_eq_or e with ⟨t, ht, -, he⟩ | ⟨-, he⟩
  · rw [he]
    by_cases hkept : isKept t
    · have hmem : stored t ∈ (reduce ts).terms :=
        List.mem_map_of_mem (List.mem_filter.2 ⟨ht, hkept⟩)
      have hstored := List.all_eq_true.1 h _ hmem
      rwa [stored, isFinite_unsignedZero] at hstored
    · simp only [isKept, Bool.or_eq_true, not_or, Bool.not_eq_true', Bool.not_eq_false] at hkept
      exact isFinite_of_isZero hkept.1
  · rw [he]
    rfl

/-- Nothing overflows unseen: with an outcome, all partial sums and all results were finite. In
degree 2 these are the results of `b * b`, `4 * a`, `4 * a * c` and their difference, of the root,
of `2 * a`, of the numerators and of the quotients. Solving never divides by zero, and takes no root
of a value below zero, whatever it comes to. -/
theorem operations_of_solve (ts : List Term) :
    (reduce ts).recordedSolve.result = (reduce ts).solve ∧
    (reduce ts).solve ≠ .error .divisionByZero ∧
    (reduce ts).recordedSolve.All Operation.IsDefined ∧
    ∀ o, (reduce ts).solve = .ok o →
      (∀ us, us <+: ts → ∀ e, ((sums us).coefficient e).isFinite) ∧
        ((reduce ts).recordedSolve.All fun op => op.result.isFinite) ∧
        ((reduce ts).degree = 2 →
          (reduce ts).recordedSolve.operations =
            quadraticOperations ((reduce ts).coefficient 2) ((reduce ts).coefficient 1)
              ((reduce ts).coefficient 0)) := by
  have hlead := hasLead_reduce ts
  refine ⟨result_recordedSolve _, fun hzero => ?_, isDefined_recordedSolve hlead, fun o ho => ?_⟩
  · cases (solve_eq_iff hlead).1 hzero
  · have hbounded := (isBounded_of_solve hlead ho).2
    exact ⟨fun us hus e => isFinite_sums_of_front hus
        (isFinite_sums hbounded.coefficients e),
      isFinite_recordedSolve hlead hbounded, operations_of_isBounded hlead hbounded⟩

/-- The terms of `x^2 + x^2 + 2*x + 1`. -/
def conjugateTerms : List Term := [⟨1, 2⟩, ⟨1, 2⟩, ⟨2, 1⟩, ⟨1, 0⟩]

/-- A root of four is taken, where the discriminant is minus four. -/
theorem operations_of_conjugateTerms :
    (∃ o, (reduce conjugateTerms).solve = .ok o) ∧
      (∀ e, ((sums [⟨1, 2⟩, ⟨1, 2⟩]).coefficient e).isFinite) ∧
      ((reduce conjugateTerms).recordedSolve.All fun op => op.result.isFinite) ∧
      (reduce conjugateTerms).recordedSolve.operations =
        [.mul 2 2, .mul 4 2, .mul 8 1, .sub 4 8, .mul 2 2, .div (-2) 4, .add (-2 / 4) zero,
          .sqrt 4, .mul 2 2, .div 2 4] := by
  have hroots : Root.allFinite (reduce conjugateTerms).outcome.roots = .ok true := by decide +kernel
  have solved : (reduce conjugateTerms).solve = .ok (reduce conjugateTerms).outcome := by
    rw [solve_of_finite (hasLead_reduce _) (by decide +kernel) fun _ => by decide +kernel, hroots]
    rfl
  obtain ⟨-, -, -, finite⟩ := operations_of_solve conjugateTerms
  obtain ⟨hsums, hfinite, hoperations⟩ := finite _ solved
  refine ⟨⟨_, solved⟩, hsums _ ⟨_, rfl⟩, hfinite, ?_⟩
  rw [hoperations (by decide +kernel)]
  decide +kernel

end Polynomial

end PolySolve
