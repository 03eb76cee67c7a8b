import PolySolve.Proofs.Decimal.ReadBack
import PolySolve.Solution.Report

/-!
# Roots with six places

A root is written with six places, or with six places in each part. No minus stands in front of a
zero: not in front of a real root or a real part, as there is one only if the multiple of a
millionth is not zero, and not in front of an imaginary part, where the sign of the root stands
between two blanks and is followed by a magnitude.

* `not_infix_fixedChars`: no value is written as minus zero;
* `Root.not_infix_fixedText`: no root is;
* `fixedText?_rounded`: what is written of a value with a number of places.
-/

namespace PolySolve

open Binary64 Decimal Text

-- The elaborator must not evaluate these powers of two.
attribute [local irreducible] overflowUnits unitsPerOne

/-! ## No minus zero -/

namespace Decimal

/-- Zero with six places. -/
def zeroChars : List Char := '0' :: '.' :: zeros 6

/-- Minus zero with six places. -/
def minusZeroChars : List Char := '-' :: zeroChars

example : minusZeroChars = "-0.000000".toList := by decide

variable {rest : List Char}

/-- A count other than zero is not written as zero. -/
theorem FixedText.not_prefix (w : FixedText 6) (h0 : w.count ≠ 0) :
    ¬ zeroChars <+: w.chars ++ rest := by
  obtain ⟨whole, fraction, hne, _, hleading, _, hlength⟩ := w
  have hfraction : fraction ≠ [] := by
    rintro rfl
    exact absurd hlength (by decide)
  show ¬ zeroChars <+: whole ++ fractionChars fraction ++ rest
  rw [fractionChars_of_ne_nil hfraction, List.append_assoc]
  intro hfront
  rcases hleading with rfl | hhead
  · have hzeros : zeros 6 <+: fraction ++ rest :=
      (List.cons_prefix_cons.1 (List.cons_prefix_cons.1 hfront).2).2
    have hwithin := List.prefix_of_prefix_length_le hzeros (List.prefix_append _ _) hlength.ge
    have heq : zeros 6 = fraction := hwithin.eq_of_length hlength.symm
    refine h0 ?_
    show digitsValue (zeros 1 ++ fraction) = 0
    rw [← heq, digitsValue_zeros_append, digitsValue_zeros]
  · obtain ⟨c, whole, rfl⟩ := List.exists_cons_of_ne_nil hne
    refine hhead ?_
    rw [← (List.cons_prefix_cons.1 hfront).1]
    rfl

theorem not_infix_fixedChars (x : Binary64) (hrest : ¬ minusZeroChars <:+: rest) :
    ¬ minusZeroChars <:+: fixedChars 6 x ++ rest := by
  intro hin
  cases x with
  | nan => exact hrest (infix_of_append nanChars (by decide) hin)
  | infinite s =>
    cases s with
    | false => exact hrest (infix_of_append (infinityChars false) (by decide) hin)
    | true =>
      have hchars : fixedChars 6 (infinite true) = ['-', 'i', 'n', 'f'] := by decide
      rw [hchars, List.cons_append] at hin
      rcases List.infix_cons_iff.1 hin with hfront | hin
      · exact absurd (List.cons_prefix_cons.1 (List.cons_prefix_cons.1 hfront).2).1 (by decide)
      · exact hrest (infix_of_append ['i', 'n', 'f'] (by decide) hin)
  | finite s n hn b =>
    have hminus := (pointedText 6 (fixedCount 6 n)).minus_not_mem
    rw [fixedChars_finite, ← chars_pointedText] at hin
    split at hin
    · rename_i hsign
      have h0 : (pointedText 6 (fixedCount 6 n)).count ≠ 0 := by
        rw [count_pointedText]
        exact bne_iff_ne.1 (Bool.and_eq_true_iff.1 hsign).2
      rw [List.append_assoc, List.singleton_append] at hin
      rcases List.infix_cons_iff.1 hin with hfront | hin
      · exact FixedText.not_prefix _ h0 (List.cons_prefix_cons.1 hfront).2
      · exact hrest (infix_of_append _ hminus hin)
    · rw [List.nil_append] at hin
      exact hrest (infix_of_append _ hminus hin)

end Decimal

theorem Root.not_infix_fixedText (r : Root) : ¬ minusZeroChars <:+: r.fixedText := by
  cases r with
  | real x =>
    rw [fixedText, ← List.append_nil (fixedChars 6 x)]
    exact not_infix_fixedChars x (by decide)
  | complex z =>
    rw [fixedText, Complex.fixedText, List.append_assoc, List.append_assoc]
    refine not_infix_fixedChars z.re fun hin => ?_
    have himaginary : ¬ minusZeroChars <:+: fixedChars 6 z.im.abs ++ ['i'] :=
      not_infix_fixedChars _ (by decide)
    split at hin
    · rcases List.infix_cons_iff.1 (infix_of_append [' '] (by decide) hin) with h | h
      · exact absurd (List.cons_prefix_cons.1 (List.cons_prefix_cons.1 h).2).1 (by decide)
      · exact himaginary (infix_of_append [' '] (by decide) h)
    · exact himaginary (infix_of_append _ (by decide) hin)

/-! ## All places -/

namespace Decimal

/-- A finite value is written as a decimal with exactly the number of digits after the point: the
multiple of `10 ^ -places` that is nearest to the value, ties to even. There is no such text only if
it has too many digits to be read back. It has a minus exactly if the value is below zero and the
multiple is not zero, which can be found out by reading the text. Values in order are written as
numbers in order. With six places every value has a text, and no root is written as minus zero. -/
theorem fixedText?_rounded (places : Nat) {x : Binary64} (hx : x.isFinite) :
    (∃ (s : Bool) (w : FixedText places),
      fixedChars places x = (if s then ['-'] else []) ++ w.chars ∧
      ∀ cs, fixedText? places x = .ok cs ↔ cs = fixedChars places x ∧ places ≤ maxDigitsRead ∧
        (w.whole = ['0'] ∨ w.whole.length + places ≤ maxDigitsRead)) ∧
    (∃ k : Int, writtenNumber? (fixedChars places x) = some ((k : ℚ) / 10 ^ places) ∧
      IsNearestWhole (value x * 10 ^ places) k ∧
      ((fixedChars places x).head? = some '-' ↔ x < .zero ∧ k ≠ 0)) ∧
    fixedChars places x = withoutSignedZero places (signedFixedChars places x) ∧
    (∀ y : Binary64, y.isFinite → x ≤ y → ∃ q r : ℚ, writtenNumber? (fixedChars places x) = some q ∧
      writtenNumber? (fixedChars places y) = some r ∧ q ≤ r) ∧
    (∀ y : Binary64, fixedText? 6 y = .ok (fixedChars 6 y)) ∧
    ∀ r : Root, ¬ minusZeroChars <:+: r.fixedText := by
  refine ⟨?_, ⟨signedCount places x, writtenNumber?_fixedChars hx places,
    isNearestWhole_signedCount hx places, head?_fixedChars hx places⟩,
    fixedChars_eq_withoutSignedZero places x,
    fun y hy h => writtenNumber?_fixedChars_mono hx hy h places,
    fixedText?_of_le (by decide), Root.not_infix_fixedText⟩
  cases x with
  | nan => contradiction
  | infinite s => contradiction
  | finite s n hn b =>
    refine ⟨s && fixedCount places n != 0, pointedText places (fixedCount places n), ?_,
      fun cs => ?_⟩
    · rw [fixedChars_finite, chars_pointedText]
    · have hread := (pointedText places (fixedCount places n)).isReadBack_iff s
      rw [chars_pointedText] at hread
      rw [fixedText?_eq_ok_iff, signedFixedChars, hread]
      have hmax : maxDigitsRead ≤ maxPlaces := by decide
      exact and_congr_right fun _ => and_iff_right_of_imp fun hfits => hfits.1.trans hmax

/-- One eighth below zero, which is half the way between two multiples of one hundredth. -/
def minusEighth : Binary64 := (Decimal.mk 125 (-3)).toBinary64 true

theorem fixedText?_rounded_minusEighth :
    minusEighth.isFinite ∧ fixedText? 2 minusEighth = .ok "-0.12".toList ∧
    ∃ k : Int, writtenNumber? "-0.12".toList = some ((k : ℚ) / 10 ^ 2) ∧
      IsNearestWhole (value minusEighth * 10 ^ 2) k ∧ k ≠ 0 := by
  have hfinite : minusEighth.isFinite := by decide +kernel
  have hchars : fixedChars 2 minusEighth = "-0.12".toList := by decide +kernel
  have htext : fixedText? 2 minusEighth = .ok "-0.12".toList := by decide +kernel
  obtain ⟨k, hvalue, hnearest, hsign⟩ := (fixedText?_rounded 2 hfinite).2.1
  rw [hchars] at hvalue hsign
  exact ⟨hfinite, htext, k, hvalue, hnearest, (hsign.1 rfl).2⟩

/-- With more places than a format can have not even zero has a text, and with a thousand million
places one has none. -/
theorem no_fixedText_tooManyPlaces :
    (∀ cs, fixedText? 2147483648 Binary64.zero ≠ .ok cs) ∧
      ∀ cs, fixedText? 1000000000 (1 : Binary64) ≠ .ok cs := by
  constructor
  · intro cs hcs
    have hfault : fixedText? 2147483648 Binary64.zero = .error .tooMany := rfl
    rw [hfault] at hcs
    contradiction
  · have hone : 1 ≤ |value 1| := by
      rw [value_one, abs_one]
    have hmany : maxDigitsRead ≤ 1000000000 := le_rfl
    exact fixedText?_ne_ok hmany isFinite_one hone

end Decimal

end PolySolve
