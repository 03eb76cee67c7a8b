import PolySolve.Decimal.Reading
import PolySolve.Equation.Token
import PolySolve.Polynomial.Reduction

/-!
# Reading equations

An equation is two sides and an equals sign. Its polynomial is the left side minus the right one;
a side that is just `0` stands for `0 * X^0`. Both sides are checked for their form before any
number is read.

* `parts_eq_ok_iff`: the sides are what stands before and after the only equals sign.
-/

namespace PolySolve

open Text

/-- Exponents with more digits, leading zeros included, are not read. -/
def maxExponentDigits : Nat := 4300

namespace Token

/-- The operator and the sign make up one minus. -/
def isNegative (t : Token) : Bool := (t.operator == some .minus) != t.signed

/-- The magnitude of the coefficient; a term without a number has one. -/
def magnitude (t : Token) : Binary64 :=
  match t.coefficient with
  | none => 1
  | some n => (Decimal.ofDigits n.whole n.fraction 0).toBinary64 false

/-- The value of the exponent, unless it has too many digits. -/
def exponent? (t : Token) : Option Int :=
  if maxExponentDigits < t.exponentDigits.length then none
  else if t.exponentNegative then some (-(digitsValue t.exponentDigits : Int))
  else some (digitsValue t.exponentDigits)

/-- The term that a token stands for. -/
def toTerm (t : Token) : Except EquationError Term :=
  match t.exponent? with
  | none => .error (.termRange (trim t.text))
  | some e =>
    if !t.magnitude.isFinite || e < 0 then .error (.termRange (trim t.text))
    else .ok ⟨if t.isNegative then -t.magnitude else t.magnitude, e⟩

end Token

namespace Equation

/-- A side that is just `0`. -/
def isZeroSide (side : List Char) : Bool := trim side == ['0']

/-- The sides of an equation. -/
def parts (text : List Char) : Except EquationError (List Char × List Char) :=
  if text.count '=' = 1 then
    .ok (text.takeWhile (· != '='), (text.dropWhile (· != '=')).drop 1)
  else .error (.separator text)

/-- The terms of a side, in the order of the text. -/
def sideTerms (side : List Char) : Except EquationError (List Term) :=
  if isZeroSide side then .ok [⟨.zero, 0⟩]
  else (Token.tokens side).bind fun ts => ts.mapM Token.toTerm

/-- A side has the form of a sum of terms. -/
def checkSide (side : List Char) : Except EquationError Unit :=
  if isZeroSide side then .ok () else (Token.tokens side).map fun _ => ()

/-- Both sides have the form of a sum of terms. -/
def check (text : List Char) : Except EquationError Unit := do
  let (left, right) ← parts text
  checkSide left
  checkSide right

/-- The terms of both sides. -/
structure Terms where
  left : List Term
  right : List Term
  deriving DecidableEq

namespace Terms

/-- The terms of the left side minus the right one. -/
def difference (ts : Terms) : List Term := ts.left ++ ts.right.map Term.neg

end Terms

def terms (text : List Char) : Except EquationError Terms := do
  let (left, right) ← parts text
  let left ← sideTerms left
  let right ← sideTerms right
  return ⟨left, right⟩

/-- The polynomial whose zeros solve the equation. -/
def polynomial (text : List Char) : Except EquationError Polynomial := do
  check text
  let ts ← terms text
  return Polynomial.reduce ts.difference

theorem takeWhile_append_drop (text : List Char) (h : '=' ∈ text) :
    text.takeWhile (· != '=') ++ '=' :: (text.dropWhile (· != '=')).drop 1 = text := by
  induction text with
  | nil => contradiction
  | cons c cs ih =>
    by_cases hc : c = '='
    · subst hc; simp
    · have hm : '=' ∈ cs := by simpa [Ne.symm hc] using h
      simpa [hc] using ih hm

/-- The sides are what stands before and after the only equals sign. -/
theorem parts_eq_ok_iff {text left right : List Char} :
    parts text = .ok (left, right) ↔
      text = left ++ '=' :: right ∧ '=' ∉ left ∧ '=' ∉ right := by
  constructor
  · intro h
    unfold parts at h
    split at h
    · rename_i hc
      obtain ⟨rfl, rfl⟩ := Prod.mk.inj (Except.ok.inj h)
      have hm : '=' ∈ text := List.count_pos_iff.1 (by omega)
      have he := takeWhile_append_drop text hm
      have hl : '=' ∉ text.takeWhile (· != '=') := fun hx => by
        simpa using List.all_eq_true.1 (List.all_takeWhile (l := text)) _ hx
      refine ⟨he.symm, hl, fun hr => ?_⟩
      rw [← he, List.count_append, List.count_cons_self, List.count_eq_zero.2 hl] at hc
      have := List.count_pos_iff.2 hr
      omega
    · contradiction
  · rintro ⟨rfl, hl, hr⟩
    have hc : (left ++ '=' :: right).count '=' = 1 := by
      simp [List.count_append, List.count_eq_zero.2 hl, List.count_eq_zero.2 hr]
    have ht : ∀ c ∈ left, (c != '=') = true := fun c hc => by
      simp; rintro rfl; exact hl hc
    rw [parts, if_pos hc, List.takeWhile_append_of_pos ht, List.dropWhile_append_of_pos ht]
    simp

end Equation

end PolySolve
