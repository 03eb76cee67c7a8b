import PolySolve.Decimal.General
import PolySolve.Decimal.Reading
import PolySolve.Proofs.Decimal.Shortest

/-!
# The general form reads back

A value in the general form is some digits, some digits after a point and an
exponent, of which the point or the exponent may be missing, but not both.
`Written` is such a text taken apart, and the number that it stands for is
rounded to the value that was written:

* `exists_written_writtenOut`, `exists_written_withExponent`: the two forms;
* `exists_written_magnitudeChars`: every magnitude;
* `plainChars_finite`, `mem_plainMagnitudeChars_of_lt`: plain numbers, and which
  of them have an exponent.
-/

namespace PolySolve.Decimal

open Binary64 Text

-- The elaborator must not evaluate these powers of two.
attribute [local irreducible] overflowUnits unitsPerOne

/-! ## The form of a number -/

/-- Nothing, or a point and digits. -/
def fractionChars (fraction : List Char) : List Char :=
  if fraction = [] then [] else '.' :: fraction

theorem fractionChars_of_ne_nil {fraction : List Char} (h : fraction ≠ []) :
    fractionChars fraction = '.' :: fraction := if_neg h

/-- Nothing, or an exponent. -/
def exponentPartChars : Option Int → List Char
  | none => []
  | some e => 'e' :: exponentChars e

/-- A number in the general form, without a sign. -/
structure Written where
  whole : List Char
  fraction : List Char
  exponent : Option Int
  whole_ne_nil : whole ≠ []
  whole_digit : ∀ c ∈ whole, c.isDigit
  fraction_digit : ∀ c ∈ fraction, c.isDigit
  /-- The first digit is not a zero unless it is the only one. -/
  leading : whole = ['0'] ∨ '0' ∉ whole.head?
  marked : fraction ≠ [] ∨ exponent.isSome

namespace Written

variable (w : Written)

def chars : List Char := w.whole ++ (fractionChars w.fraction ++ exponentPartChars w.exponent)

/-- The number that is written. -/
def value : Decimal := ofDigits w.whole w.fraction (w.exponent.getD 0)

end Written

theorem toRat_ofDigits (whole fraction : List Char) (e : Int) :
    (ofDigits whole fraction e).toRat =
      digitsValue (whole ++ fraction) * 10 ^ (e - fraction.length) := rfl

/-! ## The two forms -/

/-- Digits that start with no zero. -/
structure Significant (ds : List Char) : Prop where
  ne_nil : ds ≠ []
  digit : ∀ c ∈ ds, c.isDigit
  head : '0' ∉ ds.head?

theorem significant_digitChars {n : Nat} (h : n ≠ 0) : Significant (digitChars n) :=
  ⟨digitChars_ne_nil n, fun _ => isDigit_of_mem_digitChars, head?_digitChars h⟩

namespace Written

variable {ds : List Char} (h : Significant ds)

/-- All digits stand after the point, behind some zeros. -/
def afterPoint (k : Nat) : Written where
  whole := ['0']
  fraction := zeros k ++ ds
  exponent := none
  whole_ne_nil := List.cons_ne_nil _ _
  whole_digit := List.forall_mem_singleton.2 rfl
  fraction_digit c hc := (List.mem_append.1 hc).elim isDigit_of_mem_zeros (h.digit c)
  leading := Or.inl rfl
  marked := Or.inl (List.append_ne_nil_of_right_ne_nil _ h.ne_nil)

/-- All digits stand before the point, in front of some zeros. -/
def beforePoint (k : Nat) : Written where
  whole := ds ++ zeros k
  fraction := ['0']
  exponent := none
  whole_ne_nil := List.append_ne_nil_of_left_ne_nil h.ne_nil _
  whole_digit c hc := (List.mem_append.1 hc).elim (h.digit c) isDigit_of_mem_zeros
  fraction_digit := List.forall_mem_singleton.2 rfl
  leading := by
    obtain ⟨c, cs, rfl⟩ := List.exists_cons_of_ne_nil h.ne_nil
    exact Or.inr h.head
  marked := Or.inl (List.cons_ne_nil _ _)

/-- The point stands among the digits. -/
def aroundPoint {k : Nat} (hpos : k ≠ 0) (hlt : k < ds.length) : Written where
  whole := ds.take k
  fraction := ds.drop k
  exponent := none
  whole_ne_nil := by
    rw [Ne, List.take_eq_nil_iff, not_or]
    exact ⟨hpos, h.ne_nil⟩
  whole_digit c hc := h.digit c (List.mem_of_mem_take hc)
  fraction_digit c hc := h.digit c (List.mem_of_mem_drop hc)
  leading := by
    rw [List.head?_take, if_neg hpos]
    exact Or.inr h.head
  marked := Or.inl (by simpa using hlt)

theorem toRat_afterPoint (k : Nat) :
    (afterPoint h k).value.toRat = digitsValue ds * 10 ^ (-(k + ds.length : ℤ)) := by
  have hvalue : digitsValue (['0'] ++ (zeros k ++ ds)) = digitsValue ds :=
    (digitsValue_zeros_append 1 _).trans (digitsValue_zeros_append k ds)
  have hexp : (0 : ℤ) - (zeros k ++ ds).length = -(k + ds.length : ℤ) := by
    simp [length_zeros]
  exact (toRat_ofDigits _ _ _).trans (by rw [← hexp, ← hvalue]; rfl)

theorem toRat_beforePoint (k : Nat) :
    (beforePoint h k).value.toRat = digitsValue ds * 10 ^ k := by
  have hvalue : digitsValue (ds ++ zeros k ++ ['0']) = digitsValue ds * 10 ^ k * 10 := by
    rw [show ['0'] = zeros 1 from rfl, digitsValue_append_zeros, digitsValue_append_zeros,
      Nat.pow_one]
  have hexp : (0 : ℤ) - ['0'].length = -1 := rfl
  have hrat := toRat_ofDigits (ds ++ zeros k) ['0'] 0
  rw [hvalue, hexp, zpow_neg_one] at hrat
  refine hrat.trans ?_
  push_cast
  field_simp

theorem toRat_aroundPoint {k : Nat} (hpos : k ≠ 0) (hlt : k < ds.length) :
    (aroundPoint h hpos hlt).value.toRat = digitsValue ds * 10 ^ (k - ds.length : ℤ) := by
  have hexp : (0 : ℤ) - (ds.drop k).length = k - ds.length := by
    rw [List.length_drop]
    omega
  have hrat := toRat_ofDigits (ds.take k) (ds.drop k) 0
  rwa [List.take_append_drop, hexp] at hrat

end Written

section

variable {ds : List Char}

theorem exists_written_writtenOut (h : Significant ds) (point : Int) :
    ∃ w : Written, w.chars = writtenOut ds point ∧ w.exponent = none ∧
      w.value.toRat = digitsValue ds * 10 ^ (point - ds.length) := by
  unfold writtenOut
  split
  · have hne : zeros (-point).toNat ++ ds ≠ [] := List.append_ne_nil_of_right_ne_nil _ h.ne_nil
    refine ⟨.afterPoint h (-point).toNat, ?_, rfl, ?_⟩
    · show ['0'] ++ (fractionChars (zeros (-point).toNat ++ ds) ++ []) = _
      rw [fractionChars_of_ne_nil hne, List.append_nil]
      rfl
    · rw [Written.toRat_afterPoint]
      congr 2
      omega
  split
  · refine ⟨.beforePoint h (point.toNat - ds.length), ?_, rfl, ?_⟩
    · simp [Written.beforePoint, Written.chars, fractionChars, exponentPartChars]
    · have hexp : point - ds.length = ((point.toNat - ds.length : Nat) : ℤ) := by omega
      rw [Written.toRat_beforePoint, hexp, zpow_natCast]
  · rename_i hpoint hlt
    have hdrop : ds.drop point.toNat ≠ [] := by simpa using hlt
    refine ⟨.aroundPoint h (k := point.toNat) (by omega) (by omega), ?_, rfl, ?_⟩
    · show ds.take point.toNat ++ (fractionChars (ds.drop point.toNat) ++ []) = _
      rw [fractionChars_of_ne_nil hdrop, List.append_nil]
    · rw [Written.toRat_aroundPoint, Int.toNat_of_nonneg (by omega)]

theorem exists_written_withExponent (h : Significant ds) (point : Int) :
    ∃ w : Written, w.chars = withExponent ds point ∧ w.exponent = some (point - 1) ∧
      w.value.toRat = digitsValue ds * 10 ^ (point - ds.length) := by
  obtain ⟨d, rest, rfl⟩ := List.exists_cons_of_ne_nil h.ne_nil
  let w : Written := {
    whole := [d]
    fraction := rest
    exponent := some (point - 1)
    whole_ne_nil := List.cons_ne_nil _ _
    whole_digit := List.forall_mem_singleton.2 (h.digit d List.mem_cons_self)
    fraction_digit := fun c hc => h.digit c (List.mem_cons_of_mem _ hc)
    leading := Or.inr h.head
    marked := Or.inr rfl }
  refine ⟨w, ?_, rfl, ?_⟩
  · cases rest with
    | nil => rfl
    | cons c cs => simp [w, Written.chars, fractionChars, exponentPartChars, withExponent]
  · have hexp : point - 1 - rest.length = point - (d :: rest).length := by
      rw [List.length_cons]
      push_cast
      ring
    rw [Written.value, toRat_ofDigits, Option.getD_some, hexp]
    rfl

end

/-! ## Magnitudes -/

/-- A magnitude is written with an exponent. -/
def HasExponent (n : Nat) : Prop := n ≠ 0 ∧ ¬ (-4 < (shortest n).point ∧ (shortest n).point ≤ 16)

/-- The shortest decimal is written in one of the two forms. -/
theorem exists_written_of_ne_zero {n : Nat} (hn : OnGrid n) (h0 : n ≠ 0) :
    ∃ w : Written, w.chars = magnitudeChars n ∧ (w.exponent.isSome ↔ HasExponent n) ∧
      w.value.toRat = (shortest n).toRat := by
  have significant := significant_digitChars (digits_shortest_ne_zero hn h0)
  have hvalue : (digitsValue (digitChars (shortest n).digits) : ℚ) *
      10 ^ ((shortest n).point - (digitChars (shortest n).digits).length) = (shortest n).toRat := by
    rw [digitsValue_digitChars, point, add_sub_cancel_left, toRat]
  have hchars : magnitudeChars n =
      if -4 < (shortest n).point ∧ (shortest n).point ≤ 16
      then writtenOut (digitChars (shortest n).digits) (shortest n).point
      else withExponent (digitChars (shortest n).digits) (shortest n).point := if_neg h0
  rw [hchars]
  split
  · rename_i hpoint
    obtain ⟨w, hw, he, hv⟩ := exists_written_writtenOut significant (shortest n).point
    refine ⟨w, hw, ?_, hv.trans hvalue⟩
    rw [he]
    exact ⟨fun h => absurd h Bool.false_ne_true, fun h => absurd hpoint h.2⟩
  · rename_i hpoint
    obtain ⟨w, hw, he, hv⟩ := exists_written_withExponent significant (shortest n).point
    refine ⟨w, hw, ?_, hv.trans hvalue⟩
    rw [he]
    exact ⟨fun _ => ⟨h0, hpoint⟩, fun _ => rfl⟩

/-- What is written of a magnitude is rounded to it. -/
theorem exists_written_magnitudeChars {n : Nat} (hn : OnGrid n) :
    ∃ w : Written, w.chars = magnitudeChars n ∧ (w.exponent.isSome ↔ HasExponent n) ∧
      IsNearest (w.value.toRat * unitsPerOne) n := by
  by_cases h0 : n = 0
  · let w : Written := {
      whole := ['0']
      fraction := ['0']
      exponent := none
      whole_ne_nil := List.cons_ne_nil _ _
      whole_digit := List.forall_mem_singleton.2 rfl
      fraction_digit := List.forall_mem_singleton.2 rfl
      leading := Or.inl rfl
      marked := Or.inl (List.cons_ne_nil _ _) }
    subst h0
    refine ⟨w, rfl, ⟨fun h => absurd h Bool.false_ne_true, fun h => absurd rfl h.1⟩, ?_⟩
    have hzero : w.value.toRat * unitsPerOne = (0 : Nat) := by
      rw [Written.value, toRat_ofDigits, show digitsValue (w.whole ++ w.fraction) = 0 from rfl]
      simp
    rw [hzero]
    exact isNearest_natCast onGrid_zero
  · obtain ⟨w, hw, he, hv⟩ := exists_written_of_ne_zero hn h0
    refine ⟨w, hw, he, ?_⟩
    rw [hv]
    exact isNearest_shortest hn h0

/-- A magnitude with a fraction is written with an exponent if it is below the value nearest to
`0.0001`. -/
theorem hasExponent_iff {n : Nat} (hn : OnGrid n) (h : ¬ unitsPerOne ∣ n) :
    HasExponent n ↔ n < tenThousandthUnits := by
  have h0 : n ≠ 0 := fun h0 => h (h0 ▸ Nat.dvd_zero _)
  have hpoint := lt_point_shortest_iff hn h0
  rw [HasExponent, hpoint]
  have := point_shortest_le hn h
  omega

/-! ## Characters -/

/-- A character that a finite value may have. -/
def IsNumberChar (c : Char) : Prop := c.isDigit ∨ c ∈ ['.', 'e', '+', '-']

theorem isNumberChar_of_mem_exponentChars {e : Int} {c : Char} (h : c ∈ exponentChars e) :
    IsNumberChar c := by
  rcases List.mem_cons.1 h with rfl | h
  · right
    split <;> decide
  · exact Or.inl (isDigit_of_mem_paddedDigits h)

theorem isNumberChar_of_mem_parts {whole fraction : List Char} {exponent : Option Int}
    (hwhole : ∀ c ∈ whole, c.isDigit) (hfraction : ∀ c ∈ fraction, c.isDigit) {c : Char}
    (h : c ∈ whole ++ (fractionChars fraction ++ exponentPartChars exponent)) :
    IsNumberChar c := by
  rcases List.mem_append.1 h with h | h
  · exact Or.inl (hwhole c h)
  rcases List.mem_append.1 h with h | h
  · unfold fractionChars at h
    split at h
    · contradiction
    rcases List.mem_cons.1 h with rfl | h
    · exact Or.inr (by decide)
    · exact Or.inl (hfraction c h)
  · unfold exponentPartChars at h
    split at h
    · contradiction
    rcases List.mem_cons.1 h with rfl | h
    · exact Or.inr (by decide)
    · exact isNumberChar_of_mem_exponentChars h

theorem Written.isNumberChar_of_mem (w : Written) {c : Char} (h : c ∈ w.chars) :
    IsNumberChar c :=
  isNumberChar_of_mem_parts w.whole_digit w.fraction_digit h

theorem isNumberChar_of_mem_magnitudeChars {n : Nat} (hn : OnGrid n) {c : Char}
    (h : c ∈ magnitudeChars n) : IsNumberChar c := by
  obtain ⟨w, hw, -⟩ := exists_written_magnitudeChars hn
  exact w.isNumberChar_of_mem (hw ▸ h)

theorem mem_magnitudeChars_of_hasExponent {n : Nat} (hn : OnGrid n) (h : HasExponent n) :
    'e' ∈ magnitudeChars n := by
  obtain ⟨w, hw, he, -⟩ := exists_written_magnitudeChars hn
  obtain ⟨e, hexponent⟩ := Option.isSome_iff_exists.1 (he.2 h)
  rw [← hw, Written.chars, hexponent]
  simp [exponentPartChars]

/-! ## Plain numbers -/

/-- A magnitude as it is written in a plain number. -/
def plainMagnitudeChars (n : Nat) : List Char :=
  if unitsPerOne ∣ n then digitChars (n / unitsPerOne) else magnitudeChars n

/-- A sign and a magnitude are written one after the other. -/
theorem plainChars_finite {s : Bool} {n : Nat} {hn : OnGrid n} {b : n < overflowUnits}
    (h : finite s n hn b ≠ -zero) :
    plainChars (finite s n hn b) = (if s then ['-'] else []) ++ plainMagnitudeChars n := by
  have htoInt : (finite s n hn b).toInt? = if unitsPerOne ∣ n
      then some ((if s then (-1 : Int) else 1) * (n / unitsPerOne : Nat)) else none := rfl
  unfold plainChars plainMagnitudeChars
  rw [unsignedZero_of_ne h]
  dsimp only
  rw [htoInt]
  by_cases hdvd : unitsPerOne ∣ n
  · rw [if_pos hdvd, if_pos hdvd]
    show intChars _ = _
    cases s with
    | false =>
      rw [if_neg Bool.false_ne_true, one_mul, intChars_of_nonneg (Int.natCast_nonneg _),
        Int.natAbs_natCast]
      rfl
    | true =>
      have h0 : n ≠ 0 := by
        rintro rfl
        exact h rfl
      have hpos : 0 < n / unitsPerOne :=
        Nat.div_pos (Nat.le_of_dvd (Nat.pos_of_ne_zero h0) hdvd) unitsPerOne_pos
      rw [if_pos rfl, neg_one_mul, intChars_of_neg (by omega), Int.natAbs_neg, Int.natAbs_natCast]
      rfl
  · rw [if_neg hdvd, if_neg hdvd]
    cases s <;> rfl

theorem isNumberChar_of_mem_plainMagnitudeChars {n : Nat} (hn : OnGrid n) {c : Char}
    (h : c ∈ plainMagnitudeChars n) : IsNumberChar c := by
  unfold plainMagnitudeChars at h
  split at h
  · exact Or.inl (isDigit_of_mem_digitChars h)
  · exact isNumberChar_of_mem_magnitudeChars hn h

theorem isNumberChar_of_mem_intChars {n : Int} {c : Char} (h : c ∈ intChars n) :
    IsNumberChar c := by
  unfold intChars at h
  split at h
  · rcases List.mem_cons.1 h with rfl | h
    · exact Or.inr (by decide)
    · exact Or.inl (isDigit_of_mem_digitChars h)
  · exact Or.inl (isDigit_of_mem_digitChars h)

theorem isNumberChar_of_mem_plainChars {x : Binary64} (hx : x.isFinite) {c : Char}
    (h : c ∈ plainChars x) : IsNumberChar c := by
  have hne := x.unsignedZero_ne
  have hplain : plainChars x = plainChars x.unsignedZero := by
    rw [plainChars, plainChars, unsignedZero_of_ne hne]
  rw [← isFinite_unsignedZero] at hx
  rw [hplain] at h
  cases hu : x.unsignedZero with
  | nan => rw [hu] at hx; contradiction
  | infinite s => rw [hu] at hx; contradiction
  | finite s n hn b =>
    rw [hu] at h hne
    rw [plainChars_finite hne] at h
    rcases List.mem_append.1 h with h | h
    · split at h
      · rw [List.mem_singleton.1 h]
        exact Or.inr (by decide)
      · contradiction
    · exact isNumberChar_of_mem_plainMagnitudeChars hn h

theorem tenThousandthUnits_lt : tenThousandthUnits < unitsPerOne := by
  unfold unitsPerOne
  decide +kernel

/-- A plain number other than zero has an exponent if it is below the value nearest to `0.0001`. -/
theorem mem_plainMagnitudeChars_of_lt {n : Nat} (hn : OnGrid n) (h0 : n ≠ 0)
    (h : n < tenThousandthUnits) : 'e' ∈ plainMagnitudeChars n := by
  have hdvd : ¬ unitsPerOne ∣ n := fun hd => by
    have := Nat.le_of_dvd (Nat.pos_of_ne_zero h0) hd
    have := tenThousandthUnits_lt
    omega
  rw [plainMagnitudeChars, if_neg hdvd]
  exact mem_magnitudeChars_of_hasExponent hn ((hasExponent_iff hn hdvd).2 h)

end PolySolve.Decimal
