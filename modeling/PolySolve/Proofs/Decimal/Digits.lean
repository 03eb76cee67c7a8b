import Mathlib.Data.Nat.Digits.Defs
import Mathlib.Tactic.Ring
import PolySolve.Decimal.Basic
import PolySolve.Text.DecimalDigit

/-!
# Digit characters

Whole numbers are written in the digits `0` to `9` and read in the digits of
any script. What is written stands for the number it was written for:

* `digitsValue_append`: a run of digits in two pieces;
* `digitsValue_digitChars`: the digits of a number stand for it;
* `lt_tenPow_length`, `tenPow_length_le`: how many they are;
* `head?_digitChars`: there is no zero at the front, except of zero itself.
-/

namespace PolySolve

namespace Text

/-! ## Runs of digits -/

theorem foldl_digitsValue (cs : List Char) (n : Nat) :
    cs.foldl (fun n c => 10 * n + (digitValue? c).getD 0) n =
      n * 10 ^ cs.length + digitsValue cs := by
  induction cs generalizing n with
  | nil => simp [digitsValue]
  | cons c cs ih =>
    rw [digitsValue, List.foldl_cons, List.foldl_cons, ih, ih (10 * 0 + _), List.length_cons]
    ring

theorem digitsValue_append (cs ds : List Char) :
    digitsValue (cs ++ ds) = digitsValue cs * 10 ^ ds.length + digitsValue ds := by
  rw [digitsValue, List.foldl_append, foldl_digitsValue]
  rfl

theorem digitsValue_singleton {c : Char} {d : Nat} (h : digitValue? c = some d) :
    digitsValue [c] = d := by
  simp [digitsValue, h]

theorem digitsValue_lt (cs : List Char) : digitsValue cs < 10 ^ cs.length := by
  induction cs with
  | nil => exact Nat.one_pos
  | cons c cs ih =>
    have hd : digitsValue [c] ≤ 9 := by
      cases h : digitValue? c with
      | none => simp [digitsValue, h]
      | some d =>
        have := digitValue?_lt h
        rw [digitsValue_singleton h]
        omega
    have hsplit : digitsValue (c :: cs) = digitsValue [c] * 10 ^ cs.length + digitsValue cs :=
      digitsValue_append [c] cs
    rw [hsplit, List.length_cons, Nat.pow_succ]
    have := Nat.mul_le_mul_right (10 ^ cs.length) hd
    omega

/-- The digits `0` to `9` are the first of all scripts. -/
theorem digitValue?_of_isDigit {c : Char} (h : c.isDigit) :
    digitValue? c = some (c.toNat - 48) := by
  have bounds : 48 ≤ c.toNat ∧ c.toNat < 58 := by
    simp only [Char.isDigit, Bool.and_eq_true, decide_eq_true_eq] at h
    exact ⟨h.1, Nat.lt_succ_of_le h.2⟩
  rw [digitValue?, digitZeros, List.findSome?_cons, if_pos bounds]

theorem isDigit_of_charIsDigit {c : Char} (h : c.isDigit) : isDigit c := by
  rw [isDigit, digitValue?_of_isDigit h]
  rfl

end Text

open Text

namespace Decimal

/-! ## The digits of a number -/

theorem isDigit_of_mem_digitChars {n : Nat} {c : Char} (h : c ∈ digitChars n) : c.isDigit :=
  Nat.isDigit_of_mem_toDigits (by decide) (by decide) h

theorem digitChars_ne_nil (n : Nat) : digitChars n ≠ [] := Nat.toDigits_ne_nil

theorem length_digitChars_pos (n : Nat) : 0 < (digitChars n).length := Nat.length_toDigits_pos

theorem digitChars_of_lt {n : Nat} (h : n < 10) : digitChars n = [n.digitChar] :=
  Nat.toDigits_of_lt_base h

theorem digitChars_of_le {n : Nat} (h : 10 ≤ n) :
    digitChars n = digitChars (n / 10) ++ [(n % 10).digitChar] :=
  Nat.toDigits_of_base_le (by decide) h

theorem digitValue?_digitChar {d : Nat} (h : d < 10) : digitValue? d.digitChar = some d := by
  have hd : d.digitChar ∈ digitChars d := by simp [digitChars_of_lt h]
  rw [digitValue?_of_isDigit (isDigit_of_mem_digitChars hd),
    Nat.toNat_digitChar_sub_48_of_lt_ten h]

theorem digitsValue_digitChars (n : Nat) : digitsValue (digitChars n) = n := by
  induction n using Nat.strongRecOn with
  | ind n ih =>
    by_cases h : n < 10
    · rw [digitChars_of_lt h, digitsValue_singleton (digitValue?_digitChar h)]
    · have hlast : n % 10 < 10 := Nat.mod_lt n (by decide)
      rw [digitChars_of_le (by omega), digitsValue_append, ih (n / 10) (by omega),
        digitsValue_singleton (digitValue?_digitChar hlast), List.length_singleton]
      omega

theorem length_digitChars_le_iff {n k : Nat} (h : 0 < k) :
    (digitChars n).length ≤ k ↔ n < 10 ^ k := Nat.length_toDigits_le_iff (by decide) h

theorem lt_tenPow_length (n : Nat) : n < 10 ^ (digitChars n).length :=
  (length_digitChars_le_iff (length_digitChars_pos n)).1 (Nat.le_refl _)

theorem tenPow_length_le {n : Nat} (h : n ≠ 0) : 10 ^ ((digitChars n).length - 1) ≤ n := by
  by_cases h1 : (digitChars n).length = 1
  · rw [h1, Nat.sub_self, Nat.pow_zero]
    omega
  · have hpos := length_digitChars_pos n
    have hmore : ¬ (digitChars n).length ≤ (digitChars n).length - 1 := by omega
    exact Nat.le_of_not_lt fun hlt => hmore ((length_digitChars_le_iff (by omega)).2 hlt)

/-- A number is not longer than any run of digits that stands for it. -/
theorem length_digitChars_digitsValue_le {ds : List Char} (h : ds ≠ []) :
    (digitChars (digitsValue ds)).length ≤ ds.length :=
  (length_digitChars_le_iff (List.length_pos_iff.2 h)).2 (digitsValue_lt ds)

/-- No zero stands at the front of a number other than zero. -/
theorem head?_digitChars {n : Nat} (h : n ≠ 0) : '0' ∉ (digitChars n).head? := by
  induction n using Nat.strongRecOn with
  | ind n ih =>
    by_cases hlt : n < 10
    · rw [digitChars_of_lt hlt]
      intro h0
      have value := digitValue?_digitChar hlt
      rw [Option.some.inj h0, show digitValue? '0' = some 0 from rfl] at value
      exact h (Option.some.inj value).symm
    · have front := ih (n / 10) (by omega) (by omega)
      rw [digitChars_of_le (by omega)]
      obtain ⟨c, cs, hc⟩ := List.exists_cons_of_ne_nil (digitChars_ne_nil (n / 10))
      rw [hc] at front ⊢
      exact front

/-! ## Integers -/

theorem intChars_of_nonneg {n : Int} (h : 0 ≤ n) : intChars n = digitChars n.natAbs :=
  if_neg (Int.not_lt.2 h)

theorem intChars_of_neg {n : Int} (h : n < 0) : intChars n = '-' :: digitChars n.natAbs := if_pos h

/-! ## Zeros -/

theorem length_zeros (k : Nat) : (zeros k).length = k := List.length_replicate

theorem isDigit_of_mem_zeros {k : Nat} {c : Char} (h : c ∈ zeros k) : c.isDigit := by
  rw [List.eq_of_mem_replicate h]
  rfl

theorem digitsValue_zeros (k : Nat) : digitsValue (zeros k) = 0 := by
  induction k with
  | zero => rfl
  | succ k ih =>
    have hcons : zeros (k + 1) = ['0'] ++ zeros k := rfl
    rw [hcons, digitsValue_append, ih, show digitsValue ['0'] = 0 from rfl]
    simp

/-- Zeros in front do not count. -/
theorem digitsValue_zeros_append (k : Nat) (ds : List Char) :
    digitsValue (zeros k ++ ds) = digitsValue ds := by
  rw [digitsValue_append, digitsValue_zeros, Nat.zero_mul, Nat.zero_add]

theorem digitsValue_append_zeros (ds : List Char) (k : Nat) :
    digitsValue (ds ++ zeros k) = digitsValue ds * 10 ^ k := by
  rw [digitsValue_append, digitsValue_zeros, length_zeros, Nat.add_zero]

theorem digitsValue_paddedDigits (width n : Nat) : digitsValue (paddedDigits width n) = n := by
  rw [paddedDigits, digitsValue_zeros_append, digitsValue_digitChars]

theorem isDigit_of_mem_paddedDigits {width n : Nat} {c : Char} (h : c ∈ paddedDigits width n) :
    c.isDigit :=
  (List.mem_append.1 h).elim isDigit_of_mem_zeros isDigit_of_mem_digitChars

theorem paddedDigits_ne_nil (width n : Nat) : paddedDigits width n ≠ [] := fun h =>
  digitChars_ne_nil n (List.append_eq_nil_iff.1 h).2

end Decimal

end PolySolve
