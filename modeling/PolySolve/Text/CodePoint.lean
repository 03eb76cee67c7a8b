/-!
# Code points

A code point, unlike a `Char`, may be a surrogate. Texts that an escape can leave with half of a
surrogate pair are lists of code points.

* `toChar?_ofChar`: characters are code points;
* `joinPairs_codePoints`: characters are not paired.
-/

namespace PolySolve.Text

structure CodePoint where
  value : Nat
  value_lt : value < 0x110000
  deriving DecidableEq

namespace CodePoint

theorem toNat_lt (c : Char) : c.toNat < 0x110000 := by
  have h : c.toNat.isValidChar := c.valid
  rcases h with h | h
  · omega
  · exact h.2

def ofChar (c : Char) : CodePoint := ⟨c.toNat, toNat_lt c⟩

/-- Half of a surrogate pair, which is no character and has no UTF-8 form. -/
def isSurrogate (p : CodePoint) : Bool := 0xD800 ≤ p.value && p.value < 0xE000

def toChar? (p : CodePoint) : Option Char :=
  if p.isSurrogate then none else some (Char.ofNat p.value)

theorem isSurrogate_ofChar (c : Char) : (ofChar c).isSurrogate = false := by
  have h : c.toNat.isValidChar := c.valid
  have : ¬ (0xD800 ≤ c.toNat ∧ c.toNat < 0xE000) := by rcases h with h | h <;> omega
  have hv : (ofChar c).value = c.toNat := rfl
  rw [isSurrogate, hv, Bool.eq_false_iff, ne_eq, Bool.and_eq_true, decide_eq_true_eq,
    decide_eq_true_eq]
  exact this

theorem toChar?_ofChar (c : Char) : (ofChar c).toChar? = some c := by
  rw [toChar?, isSurrogate_ofChar]
  simp [ofChar, Char.ofNat_toNat]

end CodePoint

/-- The code points of a text. -/
def codePoints (cs : List Char) : List CodePoint := cs.map CodePoint.ofChar

/-- The text of code points none of which is a surrogate. -/
def ofCodePoints? (ps : List CodePoint) : Option (List Char) := ps.mapM CodePoint.toChar?

/-! ## Surrogate pairs -/

/-- The character of a surrogate pair. -/
def pairPoint? (high low : CodePoint) : Option CodePoint :=
  if 0xD800 ≤ high.value ∧ high.value < 0xDC00 ∧ 0xDC00 ≤ low.value ∧ low.value < 0xE000 then
    let n := 0x10000 + (high.value - 0xD800) * 0x400 + (low.value - 0xDC00)
    if h : n < 0x110000 then some ⟨n, h⟩ else none
  else none

/-- Surrogate pairs, from the left, as single characters. -/
def joinPairs : List CodePoint → List CodePoint
  | p :: q :: rest =>
    match pairPoint? p q with
    | some c => c :: joinPairs rest
    | none => p :: joinPairs (q :: rest)
  | ps => ps

theorem joinPairs_codePoints (cs : List Char) : joinPairs (codePoints cs) = codePoints cs := by
  induction cs with
  | nil => rfl
  | cons c cs ih =>
    cases cs with
    | nil => rfl
    | cons d cs =>
      have hc := CodePoint.isSurrogate_ofChar c
      have hp : pairPoint? (.ofChar c) (.ofChar d) = none := by
        refine if_neg fun h => ?_
        rw [CodePoint.isSurrogate, Bool.eq_false_iff] at hc
        exact hc (by simp only [Bool.and_eq_true, decide_eq_true_eq]; omega)
      show joinPairs (.ofChar c :: .ofChar d :: codePoints cs) = _
      rw [joinPairs, hp]
      exact congrArg _ ih

end PolySolve.Text
