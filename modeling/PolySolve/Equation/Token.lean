import PolySolve.Equation.Error
import PolySolve.Text.Blank
import PolySolve.Text.DecimalDigit

/-!
# The terms of a side as they are written

A side of an equation is a sequence of terms. A term is an operator, a minus sign, a number with a
`*`, an `X`, a `^` and an exponent, with blanks anywhere between them; operator, sign and number
may be missing, but only the first term of a side may be without an operator.

* `text_append_of_scan?`: a term's text and what follows it make up the scanned text;
* `flatMap_text_of_tokens`: the texts of the terms of a side make up the side.
-/

namespace PolySolve

open Text

inductive Operator where
  | plus
  | minus
  deriving DecidableEq

namespace Operator

def char : Operator → Char
  | plus => '+'
  | minus => '-'

end Operator

/-- Digits, and digits after a point unless there is no point. -/
structure Numeral where
  whole : List Char
  fraction : List Char
  deriving DecidableEq

namespace Numeral

def chars (n : Numeral) : List Char :=
  if n.fraction = [] then n.whole else n.whole ++ '.' :: n.fraction

/-- A number at the start of a text, and what follows it. -/
def scan? (cs : List Char) : Option (Numeral × List Char) :=
  let whole := cs.takeWhile isDigit
  let rest := cs.dropWhile isDigit
  if whole = [] then none
  else
    match rest with
    | '.' :: r =>
      if r.takeWhile isDigit = [] then some (⟨whole, []⟩, rest)
      else some (⟨whole, r.takeWhile isDigit⟩, r.dropWhile isDigit)
    | _ => some (⟨whole, []⟩, rest)

end Numeral

/-- One term as it is written. -/
structure Token where
  operator : Option Operator
  /-- There is a minus sign besides the operator. -/
  signed : Bool
  coefficient : Option Numeral
  exponentNegative : Bool
  exponentDigits : List Char
  /-- All characters of the term, with the blanks before and after it. -/
  text : List Char
  deriving DecidableEq

namespace Token

def exponentChars (t : Token) : List Char :=
  if t.exponentNegative then '-' :: t.exponentDigits else t.exponentDigits

def scanOperator (cs : List Char) : Option Operator × List Char :=
  match cs with
  | '+' :: r => (some .plus, r)
  | '-' :: r => (some .minus, r)
  | _ => (none, cs)

def scanMinus (cs : List Char) : Bool × List Char :=
  match cs with
  | '-' :: r => (true, r)
  | _ => (false, cs)

/-- A number and the `*` after it; a text that starts with no digit has none. -/
def scanCoefficient? (cs : List Char) : Option (Option Numeral × List Char) :=
  match Numeral.scan? cs with
  | none => some (none, cs)
  | some (n, r) =>
    match trimStart r with
    | '*' :: r => some (some n, trimStart r)
    | _ => none

/-- The `X`, the `^` and the blanks after each. -/
def scanPower? (cs : List Char) : Option (List Char) :=
  match cs with
  | x :: r =>
    if x = 'X' ∨ x = 'x' then
      match trimStart r with
      | '^' :: r => some (trimStart r)
      | _ => none
    else none
  | [] => none

/-- The term at the start of a text, and the text after it. -/
def scan? (cs : List Char) : Option (Token × List Char) := do
  let (operator, r) := scanOperator (trimStart cs)
  let (signed, r) := scanMinus (trimStart r)
  let (coefficient, r) ← scanCoefficient? (trimStart r)
  let r ← scanPower? r
  let (exponentNegative, r) := scanMinus r
  let exponentDigits := r.takeWhile isDigit
  if exponentDigits = [] then none
  else
    let rest := trimStart (r.dropWhile isDigit)
    let text := cs.take (cs.length - rest.length)
    some (⟨operator, signed, coefficient, exponentNegative, exponentDigits, text⟩, rest)

/-- The terms of a text, given a bound on their number. -/
def tokensUpTo : Nat → Bool → List Char → Except EquationError (List Token)
  | _, _, [] => .ok []
  | 0, _, cs => .error (.termFormat (trim cs))
  | n + 1, first, cs =>
    match scan? cs with
    | none => .error (.termFormat (trim cs))
    | some (t, rest) =>
      if !first && t.operator.isNone then .error (.termFormat (trim t.text))
      else (tokensUpTo n false rest).map (t :: ·)

/-- The terms of a side, in the order of the text. -/
def tokens (side : List Char) : Except EquationError (List Token) :=
  if side.all isBlank then .error (.emptySide side) else tokensUpTo side.length true side

/-! ## Texts of terms -/

theorem suffix_trimStart (cs : List Char) : trimStart cs <:+ cs := List.dropWhile_suffix _

theorem suffix_scanOperator (cs : List Char) : (scanOperator cs).2 <:+ cs := by
  unfold scanOperator; split <;> simp [List.suffix_cons]

theorem suffix_scanMinus (cs : List Char) : (scanMinus cs).2 <:+ cs := by
  unfold scanMinus; split <;> simp [List.suffix_cons]

theorem suffix_numeralScan? {cs r : List Char} {n : Numeral}
    (h : Numeral.scan? cs = some (n, r)) : r <:+ cs := by
  simp only [Numeral.scan?] at h
  split at h
  · contradiction
  · split at h
    · rename_i hr
      split at h <;> obtain ⟨-, rfl⟩ := Prod.mk.inj (Option.some.inj h)
      · exact List.dropWhile_suffix _
      · have hs : _ <:+ cs := List.dropWhile_suffix isDigit (l := cs)
        rw [hr] at hs
        exact ((List.dropWhile_suffix _).trans (List.suffix_cons ..)).trans hs
    · obtain ⟨-, rfl⟩ := Prod.mk.inj (Option.some.inj h)
      exact List.dropWhile_suffix _

theorem suffix_scanCoefficient? {cs r : List Char} {n : Option Numeral}
    (h : scanCoefficient? cs = some (n, r)) : r <:+ cs := by
  unfold scanCoefficient? at h
  split at h
  · obtain ⟨-, rfl⟩ := Prod.mk.inj (Option.some.inj h); exact List.suffix_refl _
  · rename_i hn
    split at h
    · rename_i hr
      obtain ⟨-, rfl⟩ := Prod.mk.inj (Option.some.inj h)
      have hs := suffix_trimStart _ |>.trans (suffix_numeralScan? hn)
      rw [hr] at hs
      exact ((suffix_trimStart _).trans (List.suffix_cons ..)).trans hs
    · contradiction

theorem suffix_scanPower? {cs r : List Char} (h : scanPower? cs = some r) :
    r <:+ cs ∧ r.length < cs.length := by
  unfold scanPower? at h
  split at h
  · split at h
    · split at h
      · rename_i s _ _ _ ht
        injection h with h; subst h
        have hs := suffix_trimStart s
        rw [ht] at hs
        have := (suffix_trimStart _).trans ((List.suffix_cons ..).trans hs)
        exact ⟨this.trans (List.suffix_cons ..), Nat.lt_succ_of_le this.length_le⟩
      · contradiction
    · contradiction
  · contradiction

theorem scan?_suffix {cs rest : List Char} {t : Token} (h : scan? cs = some (t, rest)) :
    rest <:+ cs ∧ rest.length < cs.length ∧ t.text = cs.take (cs.length - rest.length) := by
  simp only [scan?, Option.bind_eq_bind, Option.bind_eq_some_iff, Prod.exists] at h
  obtain ⟨n, r₁, h₁, r₂, h₂, h⟩ := h
  split at h
  · contradiction
  · obtain ⟨rfl, rfl⟩ := Prod.mk.inj (Option.some.inj h)
    have hs₂ := suffix_scanPower? h₂
    have hs : r₁ <:+ cs :=
      (((((suffix_scanCoefficient? h₁).trans (suffix_trimStart _)).trans
        (suffix_scanMinus _)).trans (suffix_trimStart _)).trans (suffix_scanOperator _)).trans
        (suffix_trimStart _)
    have hr := ((suffix_trimStart _).trans (List.dropWhile_suffix isDigit)).trans
      (suffix_scanMinus r₂)
    exact ⟨(hr.trans hs₂.1).trans hs,
      Nat.lt_of_le_of_lt hr.length_le (Nat.lt_of_lt_of_le hs₂.2 hs.length_le), rfl⟩

theorem text_append_of_scan? {cs rest : List Char} {t : Token} (h : scan? cs = some (t, rest)) :
    t.text ++ rest = cs := by
  obtain ⟨hs, -, ht⟩ := scan?_suffix h
  rw [ht]
  obtain ⟨pre, rfl⟩ := hs
  simp

theorem flatMap_text_of_tokensUpTo {n : Nat} {first : Bool} {cs : List Char} {ts : List Token}
    (h : tokensUpTo n first cs = .ok ts) : ts.flatMap text = cs := by
  induction n generalizing first cs ts with
  | zero => cases cs <;> simp_all [tokensUpTo]
  | succ n ih =>
    cases cs with
    | nil => simp_all [tokensUpTo]
    | cons c cs =>
      rw [tokensUpTo] at h
      · split at h
        · contradiction
        · rename_i hs
          split at h
          · contradiction
          · cases hr : tokensUpTo n false _ with
            | error e => rw [hr] at h; contradiction
            | ok us =>
              rw [hr] at h
              injection h with h; subst h
              rw [List.flatMap_cons, ih hr, text_append_of_scan? hs]
      · exact List.cons_ne_nil _ _

theorem flatMap_text_of_tokens {side : List Char} {ts : List Token} (h : tokens side = .ok ts) :
    ts.flatMap text = side := by
  unfold tokens at h
  split at h
  · contradiction
  · exact flatMap_text_of_tokensUpTo h

end Token

end PolySolve
