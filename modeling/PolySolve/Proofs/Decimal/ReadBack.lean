import PolySolve.Proofs.Decimal.Fixed

/-!
# Texts that are read back

The text of a value with a number of places is read back to find out whether it is a zero, and it
is not read if it has too many digits. How many they are is told by its two parts: all places count,
and the whole part counts unless it is zero. A finite value has no more than some hundred digits in
front of the point, so with few places every value has a text.

* `FixedText.Fits`, `FixedText.isReadBack_iff`: the texts that are read back;
* `length_whole_le`: the digits in front of the point;
* `fixedText?_eq_ok_iff`: which values have a text, and which text it is;
* `fixedText?_of_le`, `fixedText?_ne_ok`: few places, and too many of them.
-/

namespace PolySolve.Decimal

open Binary64 Text

-- The elaborator must not evaluate these powers of two.
attribute [local irreducible] overflowUnits unitsPerOne

/-! ## The digits of a text -/

namespace FixedText

variable {places : Nat} (w : FixedText places)

/-- There are no more digits than are read back: after the point, and from the first one on that is
not zero. -/
def Fits : Prop :=
  places ≤ maxDigitsRead ∧ (w.whole = ['0'] ∨ w.whole.length + places ≤ maxDigitsRead)

theorem drop_dropWhile_chars (s : Bool) :
    ((((if s then ['-'] else []) ++ w.chars).dropWhile (· != '.')).drop 1) = w.fraction := by
  have hfront : ∀ c ∈ (if s then ['-'] else []) ++ w.whole, (c != '.') = true := by
    intro c hc
    refine bne_iff_ne.2 ?_
    rintro rfl
    rcases List.mem_append.1 hc with h | h
    · cases s <;> revert h <;> decide
    · exact absurd (w.whole_digit _ h) (by decide)
  rw [chars, ← List.append_assoc, List.dropWhile_append_of_pos hfront]
  unfold fractionChars
  split
  · rename_i hnil
    rw [hnil]
    rfl
  · rfl

theorem filter_isDigit_chars (s : Bool) :
    ((if s then ['-'] else []) ++ w.chars).filter Char.isDigit = w.whole ++ w.fraction := by
  have hsign : (if s then ['-'] else []).filter Char.isDigit = [] := by
    cases s <;> rfl
  have hfraction : (fractionChars w.fraction).filter Char.isDigit = w.fraction := by
    unfold fractionChars
    split
    · rename_i hnil
      rw [hnil]
      rfl
    · rw [List.filter_cons_of_neg (by decide), List.filter_eq_self.2 w.fraction_digit]
  rw [chars, List.filter_append, List.filter_append, hsign, hfraction,
    List.filter_eq_self.2 w.whole_digit, List.nil_append]

/-- The zero in front of the point does not count, and any other whole part counts in full. -/
theorem length_dropWhile_le_iff (hplaces : places ≤ maxDigitsRead) :
    ((w.whole ++ w.fraction).dropWhile (· == '0')).length ≤ maxDigitsRead ↔
      w.whole = ['0'] ∨ w.whole.length + places ≤ maxDigitsRead := by
  by_cases hzero : w.whole = ['0']
  · refine iff_of_true ?_ (Or.inl hzero)
    have hdrop : (w.whole ++ w.fraction).dropWhile (· == '0') =
        w.fraction.dropWhile (· == '0') := by
      rw [hzero]
      rfl
    rw [hdrop]
    have hle := (List.dropWhile_sublist (· == '0') (l := w.fraction)).length_le
    rw [w.length_fraction] at hle
    exact hle.trans hplaces
  · obtain ⟨c, rest, hcons⟩ := List.exists_cons_of_ne_nil w.whole_ne_nil
    have hhead : c ≠ '0' := by
      rintro rfl
      refine w.leading.resolve_left hzero ?_
      rw [hcons]
      rfl
    have hdrop : (w.whole ++ w.fraction).dropWhile (· == '0') = w.whole ++ w.fraction := by
      rw [hcons, List.cons_append, List.dropWhile_cons_of_neg (by simpa using hhead)]
    rw [hdrop, List.length_append, w.length_fraction, or_iff_right hzero]

theorem isReadBack_iff (s : Bool) :
    isReadBack ((if s then ['-'] else []) ++ w.chars) ↔ w.Fits := by
  unfold isReadBack
  dsimp only
  rw [w.drop_dropWhile_chars s, w.filter_isDigit_chars s, w.length_fraction, Bool.and_eq_true,
    decide_eq_true_iff, decide_eq_true_iff]
  exact and_congr_right w.length_dropWhile_le_iff

end FixedText

/-! ## In front of the point -/

section

variable {places n : Nat}

/-- A finite value is less than a number of 310 digits. -/
theorem fixedCount_le (places : Nat) (hn : n < overflowUnits) :
    fixedCount places n ≤ tenPow (hugeExponent + places) := by
  have hunits : n < tenPow hugeExponent * unitsPerOne := by
    refine hn.trans_le ?_
    rw [overflowUnits, unitsPerOne, twoPow_add, Nat.mul_comm]
    exact Nat.mul_le_mul_right _ twoPow_exponentLimit_le
  have hquotient : n * tenPow places / unitsPerOne < tenPow (hugeExponent + places) := by
    rw [Nat.div_lt_iff_lt_mul unitsPerOne_pos]
    calc n * tenPow places < tenPow hugeExponent * unitsPerOne * tenPow places :=
          Nat.mul_lt_mul_of_pos_right hunits (tenPow_pos places)
      _ = tenPow (hugeExponent + places) * unitsPerOne := by
          rw [tenPow_add]
          ring
  exact (roundDiv_le_succ _ _).trans hquotient

theorem length_whole_le (places : Nat) (hn : n < overflowUnits) :
    (pointedText places (fixedCount places n)).whole.length ≤ hugeExponent + 1 := by
  have hdigits : (digitChars (fixedCount places n)).length ≤ hugeExponent + places + 1 := by
    refine (length_digitChars_le_iff (Nat.succ_pos _)).2 ((fixedCount_le places hn).trans_lt ?_)
    exact Nat.pow_lt_pow_succ (by decide)
  rw [pointedText, List.length_take, paddedDigits, List.length_append, length_zeros]
  omega

/-- A value of one or more has a whole part other than zero. -/
theorem whole_ne_zero_of_le (places : Nat) (hn : unitsPerOne ≤ n) :
    (pointedText places (fixedCount places n)).whole ≠ ['0'] := by
  intro hzero
  have hcount : digitsValue ((pointedText places (fixedCount places n)).whole ++
      (pointedText places (fixedCount places n)).fraction) = fixedCount places n :=
    count_pointedText
  have hfraction := digitsValue_lt (pointedText places (fixedCount places n)).fraction
  have hzeros (ds : List Char) : digitsValue (['0'] ++ ds) = digitsValue ds :=
    digitsValue_zeros_append 1 ds
  rw [hzero, hzeros] at hcount
  rw [(pointedText places (fixedCount places n)).length_fraction, hcount] at hfraction
  have hle : 10 ^ places ≤ fixedCount places n := by
    refine le_trans ?_ (div_le_roundDiv _ _)
    rw [Nat.le_div_iff_mul_le unitsPerOne_pos, Nat.mul_comm]
    exact Nat.mul_le_mul_right _ hn
  exact absurd hfraction (Nat.not_lt.2 hle)

end

/-! ## Texts -/

section

variable {places : Nat} {x : Binary64} {cs : List Char}

theorem fixedText?_of_checked {k : Int} (h : checkPlaces k = .ok places) (x : Binary64) :
    fixedText? k x = if isReadBack (signedFixedChars places x) then .ok (fixedChars places x)
      else .error (.tooLong (signedFixedChars places x)) := by
  rw [fixedText?, h]
  rfl

/-- Up to the greatest number of places of a format, a value has a text exactly if the text is read
back. -/
theorem fixedText?_eq_ok_iff : fixedText? places x = .ok cs ↔
    cs = fixedChars places x ∧ places ≤ maxPlaces ∧ isReadBack (signedFixedChars places x) := by
  by_cases hp : places ≤ maxPlaces
  · rw [fixedText?_of_checked (checkPlaces_of_le hp)]
    split
    · rename_i h
      simp [hp, h, eq_comm]
    · rename_i h
      simp [h]
  · have hfault : ∃ f, checkPlaces places = .error f := by
      show ∃ f, (if maxPlacesRead < places then _ else _) = _
      rw [if_pos (Nat.lt_of_not_le hp)]
      split <;> exact ⟨_, rfl⟩
    obtain ⟨f, hf⟩ := hfault
    have hrefused : fixedText? places x = .error f := by
      rw [fixedText?, hf]
      rfl
    simp [hrefused, hp]

/-- Few places. -/
theorem fixedText?_of_le (h : places + (hugeExponent + 1) ≤ maxDigitsRead) (x : Binary64) :
    fixedText? places x = .ok (fixedChars places x) := by
  have hmax : maxDigitsRead ≤ maxPlaces := by decide
  refine fixedText?_eq_ok_iff.2 ⟨rfl, by omega, ?_⟩
  cases x with
  | nan =>
    show isReadBack nanChars
    decide
  | infinite s =>
    show isReadBack (infinityChars s)
    revert s
    decide
  | finite s n hn b =>
    rw [signedFixedChars, ← chars_pointedText, FixedText.isReadBack_iff]
    have hwhole := length_whole_le places b
    exact ⟨by omega, Or.inr (by omega)⟩

/-- From as many places on as digits are read, values of one or more have no text. -/
theorem fixedText?_ne_ok (hp : maxDigitsRead ≤ places) (hx : x.isFinite) (h : 1 ≤ |value x|)
    (cs : List Char) : fixedText? places x ≠ .ok cs := by
  intro hok
  obtain ⟨-, -, hread⟩ := fixedText?_eq_ok_iff.1 hok
  cases x with
  | nan => contradiction
  | infinite s => contradiction
  | finite s n hn b =>
    have habs : |(signedUnits s n : ℚ)| = n := by
      cases s <;> simp
    have hunits : unitsPerOne ≤ n := by
      rw [value, units_finite, abs_div, habs, Nat.abs_cast, one_le_div cast_unitsPerOne_pos] at h
      exact_mod_cast h
    rw [signedFixedChars, ← chars_pointedText, FixedText.isReadBack_iff] at hread
    have hwhole := List.length_pos_iff.2
      (pointedText places (fixedCount places n)).whole_ne_nil
    have hlength := hread.2.resolve_left (whole_ne_zero_of_le places hunits)
    omega

end

end PolySolve.Decimal
