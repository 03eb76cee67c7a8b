import PolySolve.Proofs.Binary64.Monotone
import PolySolve.Proofs.Decimal.Reading

/-!
# Decimals with a given number of places

A value with `places` digits after the point is the multiple of `10 ^ -places` that is nearest to
it, ties to even. The sign of a value that is rounded to zero is left out, which can be found out
from the text: it reads as a zero exactly if the multiple is zero. A multiple that is not zero is
more than half a unit, as it is nearest to a value of a unit or more.

* `FixedText`: the texts with a number of places, and `pointedText`: the one of a count;
* `writtenNumber?_fixedChars`, `isNearestWhole_signedCount`: the number that is written;
* `writtenNumber?_fixedChars_mono`: it is in the order of the values;
* `fixedChars_eq_withoutSignedZero`: leaving the sign out by reading the text.
-/

namespace PolySolve.Decimal

open Binary64 Text

-- The elaborator must not evaluate these powers of two.
attribute [local irreducible] overflowUnits unitsPerOne

/-! ## Texts with a number of places -/

/-- A whole number without needless zeros, and `places` digits after a point unless there are
none. -/
structure FixedText (places : Nat) where
  whole : List Char
  fraction : List Char
  whole_ne_nil : whole ≠ []
  whole_digit : ∀ c ∈ whole, c.isDigit
  leading : whole = ['0'] ∨ '0' ∉ whole.head?
  fraction_digit : ∀ c ∈ fraction, c.isDigit
  length_fraction : fraction.length = places

namespace FixedText

variable {places : Nat} (w : FixedText places)

def chars : List Char := w.whole ++ fractionChars w.fraction

/-- How many multiples of `10 ^ -places` are written. -/
def count : Nat := digitsValue (w.whole ++ w.fraction)

theorem minus_not_mem : '-' ∉ w.chars := by
  intro hmem
  rcases List.mem_append.1 hmem with h | h
  · exact absurd (w.whole_digit _ h) (by decide)
  unfold fractionChars at h
  split at h
  · contradiction
  · rcases List.mem_cons.1 h with h | h
    · contradiction
    · exact absurd (w.fraction_digit _ h) (by decide)

theorem numeral : Numeral w.chars ⟨w.count, -places⟩ := by
  have hnumeral := Numeral.parts none w.whole_ne_nil w.whole_digit w.fraction_digit
  have hvalue : ofDigits w.whole w.fraction 0 = ⟨w.count, -places⟩ := by
    rw [ofDigits, w.length_fraction, zero_sub]
    rfl
  rwa [Option.getD_none, hvalue, exponentPartChars, List.append_nil] at hnumeral

end FixedText

section

variable {places count : Nat}

theorem head?_paddedDigits (places count : Nat) :
    (paddedDigits (places + 1) count).length = places + 1 ∧
      '0' ∈ (paddedDigits (places + 1) count).head? ∨
    '0' ∉ (paddedDigits (places + 1) count).head? := by
  unfold paddedDigits
  cases hk : places + 1 - (digitChars count).length with
  | zero =>
    rw [show zeros 0 = [] from rfl, List.nil_append]
    by_cases h0 : count = 0
    · subst h0
      have hlen : (digitChars 0).length = 1 := rfl
      exact Or.inl ⟨by omega, rfl⟩
    · exact Or.inr (head?_digitChars h0)
  | succ k =>
    refine Or.inl ⟨?_, rfl⟩
    rw [List.length_append, length_zeros]
    omega

/-- The text of a count. -/
def pointedText (places count : Nat) : FixedText places where
  whole := (paddedDigits (places + 1) count).take
    ((paddedDigits (places + 1) count).length - places)
  fraction := (paddedDigits (places + 1) count).drop
    ((paddedDigits (places + 1) count).length - places)
  whole_ne_nil := by
    have hlen := le_length_paddedDigits (places + 1) count
    rw [← List.length_pos_iff, List.length_take]
    omega
  whole_digit c hc := isDigit_of_mem_paddedDigits (List.mem_of_mem_take hc)
  leading := by
    rcases head?_paddedDigits places count with ⟨hlen, hzero⟩ | hzero
    · left
      obtain ⟨rest, hcons⟩ := List.head?_eq_some_iff.1 hzero
      rw [hlen, hcons, Nat.add_sub_cancel_left]
      rfl
    · right
      rw [List.head?_take]
      split
      · exact Option.not_mem_none _
      · exact hzero
  fraction_digit c hc := isDigit_of_mem_paddedDigits (List.mem_of_mem_drop hc)
  length_fraction := by
    have hlen := le_length_paddedDigits (places + 1) count
    rw [List.length_drop]
    omega

theorem chars_pointedText : (pointedText places count).chars = pointed places count := by
  have hlength := (pointedText places count).length_fraction
  unfold FixedText.chars fractionChars pointed
  by_cases h0 : places = 0
  · rw [if_pos (List.eq_nil_of_length_eq_zero (hlength.trans h0)), if_pos h0, List.append_nil]
    rfl
  · rw [if_neg fun hnil => h0 (by rw [← hlength, hnil]; rfl), if_neg h0]
    rfl

theorem count_pointedText : (pointedText places count).count = count := by
  show digitsValue (_ ++ _) = count
  rw [pointedText, List.take_append_drop, digitsValue_paddedDigits]

theorem numeral_pointed : Numeral (pointed places count) ⟨count, -places⟩ := by
  have hnumeral := (pointedText places count).numeral
  rwa [chars_pointedText, count_pointedText] at hnumeral

end

/-! ## What is written -/

/-- The number that a text with an optional minus stands for, without rounding. -/
def writtenNumber? : List Char → Option ℚ
  | '-' :: cs => (unsigned? cs).map fun d => -d.toRat
  | cs => (unsigned? cs).map toRat

theorem Numeral.writtenNumber?_eq {cs : List Char} {d : Decimal} (h : Numeral cs d) (s : Bool) :
    writtenNumber? ((if s then ['-'] else []) ++ cs) = some (if s then -d.toRat else d.toRat) := by
  have hread := h.unsigned?_eq
  cases s with
  | true => exact congrArg (Option.map fun d => -d.toRat) hread
  | false =>
    obtain ⟨c, rest, rfl, hdigit⟩ := h.exists_cons
    have hminus : c ≠ '-' := by
      rintro rfl
      contradiction
    show writtenNumber? (c :: rest) = some d.toRat
    rw [writtenNumber?.eq_2 _ fun cs hcs => hminus (List.cons.inj hcs).1, hread]
    rfl

section

variable {places : Nat} {s : Bool} {n : Nat} {hn : OnGrid n} {b : n < overflowUnits}

/-- The multiples of `10 ^ -places` in a value, with its sign. -/
def signedCount (places : Nat) : Binary64 → Int
  | .finite s n _ _ => signedUnits s (fixedCount places n)
  | _ => 0

theorem signedCount_finite :
    signedCount places (finite s n hn b) = signedUnits s (fixedCount places n) := rfl

theorem fixedChars_finite : fixedChars places (finite s n hn b) =
    (if s && fixedCount places n != 0 then ['-'] else []) ++
      pointed places (fixedCount places n) := by
  unfold fixedChars
  dsimp only
  split <;> rfl

theorem toRat_places (count places : Nat) :
    toRat ⟨count, -places⟩ = (count : ℚ) / 10 ^ places := by
  rw [toRat, zpow_neg, zpow_natCast, div_eq_mul_inv]

theorem writtenNumber?_fixedChars {x : Binary64} (hx : x.isFinite) (places : Nat) :
    writtenNumber? (fixedChars places x) = some ((signedCount places x : ℚ) / 10 ^ places) := by
  cases x with
  | nan => contradiction
  | infinite s => contradiction
  | finite s n hn b =>
    rw [fixedChars_finite, numeral_pointed.writtenNumber?_eq, toRat_places, signedCount_finite]
    congr 1
    cases s with
    | false => simp
    | true =>
      by_cases h0 : fixedCount places n = 0
      · simp [h0]
      · simp [h0, neg_div]

theorem isNearestWhole_signedCount {x : Binary64} (hx : x.isFinite) (places : Nat) :
    IsNearestWhole (value x * 10 ^ places) (signedCount places x) := by
  cases x with
  | nan => contradiction
  | infinite s => contradiction
  | finite s n hn b =>
    have nearest := isNearestWhole_roundDiv (n * tenPow places) unitsPerOne_pos
    have hvalue :
        ((n * tenPow places : Nat) : ℚ) / unitsPerOne = n / unitsPerOne * 10 ^ places := by
      rw [Nat.cast_mul, cast_tenPow]
      ring
    rw [hvalue] at nearest
    rw [value, units_finite, signedCount_finite]
    cases s with
    | false =>
      rw [signedUnits_false, signedUnits_false, Int.cast_natCast]
      exact nearest
    | true =>
      rw [signedUnits_true, signedUnits_true, Int.cast_neg, Int.cast_natCast, neg_div, neg_mul]
      exact nearest.neg

theorem fixedCount_zero (places : Nat) : fixedCount places 0 = 0 := by
  rw [fixedCount, Nat.zero_mul, roundDiv, Nat.zero_mod, Nat.mul_zero, if_pos unitsPerOne_pos,
    Nat.zero_div]

/-- There is a minus exactly in front of a number below zero. -/
theorem head?_fixedChars {x : Binary64} (hx : x.isFinite) (places : Nat) :
    (fixedChars places x).head? = some '-' ↔ x < .zero ∧ signedCount places x ≠ 0 := by
  cases x with
  | nan => contradiction
  | infinite s => contradiction
  | finite s n hn b =>
    obtain ⟨c, rest, hcons, hdigit⟩ := (@numeral_pointed places (fixedCount places n)).exists_cons
    have hminus : c ≠ '-' := by
      rintro rfl
      contradiction
    have hcount : fixedCount places n ≠ 0 → n ≠ 0 := by
      rintro hcount rfl
      exact hcount (fixedCount_zero places)
    rw [fixedChars_finite, hcons, lt_iff_units rfl rfl, units_finite, units_zero,
      signedCount_finite]
    cases s with
    | false => simp [hminus]
    | true =>
      by_cases h0 : fixedCount places n = 0
      · simp [h0, hminus]
      · simp [h0, Nat.pos_of_ne_zero (hcount h0)]

/-- Values in order are written as numbers in order. -/
theorem writtenNumber?_fixedChars_mono {x y : Binary64} (hx : x.isFinite) (hy : y.isFinite)
    (h : x ≤ y) (places : Nat) : ∃ q r : ℚ, writtenNumber? (fixedChars places x) = some q ∧
      writtenNumber? (fixedChars places y) = some r ∧ q ≤ r := by
  refine ⟨_, _, writtenNumber?_fixedChars hx places, writtenNumber?_fixedChars hy places, ?_⟩
  have hpow : (0 : ℚ) < 10 ^ places := by positivity
  have hcount : signedCount places x ≤ signedCount places y :=
    (isNearestWhole_signedCount hx places).mono (isNearestWhole_signedCount hy places)
      (mul_le_mul_of_nonneg_right ((le_iff_value hx hy).1 h) hpow.le)
  exact div_le_div_of_nonneg_right (by exact_mod_cast hcount) hpow.le

/-! ## The sign of a zero -/

/-- The text, or that of plus zero if it reads as a zero. -/
def withoutSignedZero (places : Nat) (cs : List Char) : List Char :=
  if (value? cs).any isZero then signedFixedChars places .zero else cs

theorem isNearest_zero {q : ℚ} (h : IsNearest q 0) : 2 * q ≤ 1 := by
  have hle := h.le 1 (onGrid_twoPow_mul_of_le (t := 1) 0 (by decide))
  rw [Nat.cast_zero, Nat.cast_one] at hle
  linarith [two_mul_le_add one_pos hle]

/-- A multiple other than zero is two thirds of the value or more, and the value is a unit or more,
so the multiple is more than half a unit. -/
theorem tenPow_lt_fixedCount_mul {places n : Nat} (h0 : fixedCount places n ≠ 0) :
    (10 : ℚ) ^ places < 2 * (fixedCount places n * unitsPerOne) := by
  have hn : n ≠ 0 := by
    rintro rfl
    exact h0 (fixedCount_zero places)
  have hpow : (0 : ℚ) < 10 ^ places := by positivity
  have hcount : (1 : ℚ) ≤ fixedCount places n := by exact_mod_cast Nat.pos_of_ne_zero h0
  have hunit : (1 : ℚ) ≤ n := by exact_mod_cast Nat.pos_of_ne_zero hn
  have hclose : |(fixedCount places n : ℚ) - n * 10 ^ places / unitsPerOne| ≤ 1 / 2 := by
    have near := abs_roundDiv_sub (n * tenPow places) unitsPerOne_pos
    rw [Nat.cast_mul, cast_tenPow] at near
    exact near.elim le_of_lt fun h => h.1.le
  have hvalue : (n : ℚ) * 10 ^ places ≤ 3 / 2 * fixedCount places n * unitsPerOne := by
    rw [← div_le_iff₀ cast_unitsPerOne_pos]
    linarith [(abs_le.1 hclose).1]
  have hunits : (10 : ℚ) ^ places ≤ n * 10 ^ places := le_mul_of_one_le_left hpow.le hunit
  linarith

/-- The nearest multiple reads as a zero exactly if it is zero. -/
theorem isZero_toBinary64_fixedCount (s : Bool) (places n : Nat) :
    ((Decimal.mk (fixedCount places n) (-places)).toBinary64 s).isZero ↔
      fixedCount places n = 0 := by
  have nearest := isNearest_units (Decimal.mk (fixedCount places n) (-places))
  rw [toRat_places] at nearest
  rw [toBinary64_eq_round, Binary64.round]
  constructor
  · intro hzero
    by_contra h0
    have hquotient : roundQuotient (Decimal.mk (fixedCount places n) (-places)).unitsNum
        (Decimal.mk (fixedCount places n) (-places)).unitsDen = 0 := by
      by_contra hne
      rw [isZero_ofUnits _ hne] at hzero
      contradiction
    rw [hquotient] at nearest
    have hsmall := isNearest_zero nearest
    rw [div_mul_eq_mul_div, mul_div_assoc', div_le_one (by positivity)] at hsmall
    linarith [tenPow_lt_fixedCount_mul h0]
  · intro h0
    have hzero : (Decimal.mk 0 (-places)).unitsNum = 0 := by
      rw [unitsNum, Nat.zero_mul, Nat.zero_mul]
    rw [h0]
    simp only [hzero, roundQuotient_zero, ofUnits, overflowUnits_pos, dif_pos]
    rfl

/-- The sign of a zero is left out by reading the text. -/
theorem fixedChars_eq_withoutSignedZero (places : Nat) (x : Binary64) :
    fixedChars places x = withoutSignedZero places (signedFixedChars places x) := by
  cases x with
  | nan => rfl
  | infinite s => cases s <;> rfl
  | finite s n hn b =>
    have hsigned : signedFixedChars places (finite s n hn b) =
        (if s then ['-'] else []) ++ pointed places (fixedCount places n) := rfl
    rw [fixedChars_finite, withoutSignedZero, hsigned, numeral_pointed.value?_eq, Option.any_some]
    by_cases h0 : fixedCount places n = 0
    · rw [if_pos ((isZero_toBinary64_fixedCount s places n).2 h0)]
      show _ = (if false then ['-'] else []) ++ pointed places (fixedCount places 0)
      rw [h0, fixedCount_zero]
      simp
    · rw [if_neg fun hzero => h0 ((isZero_toBinary64_fixedCount s places n).1 hzero)]
      simp [h0]

end

end PolySolve.Decimal
