import PolySolve.Polynomial.Form
import PolySolve.Proofs.Decimal.General
import PolySolve.Proofs.Equation.Verdict
import PolySolve.Proofs.Polynomial.Reduction

/-!
# Reading a reduced form

The reduced form of a polynomial is written in the grammar of equations, unless
a coefficient has an exponent of its own. Read back as an equation to zero it
gives the same coefficients, or it is refused:

* `exists_writtenNumber`: the numbers of the grammar among plain numbers;
* `Plain.exists_writtenTerm`, `Plain.exists_writtenTerm_later`: one term;
* `readable_form_of_ne_nil`: a whole form;
* `formFault_of_mem`: a form with an exponent in a coefficient;
* `formEquation_reads_back`: what is read is the polynomial.
-/

namespace PolySolve

open Binary64 Decimal Text

-- The elaborator must not evaluate these powers of two.
attribute [local irreducible] overflowUnits unitsPerOne

/-! ## Numbers -/

namespace DigitRun

def ofIsDigit (cs : List Char) (h : cs ≠ []) (hd : ∀ c ∈ cs, c.isDigit) : DigitRun :=
  ⟨cs, h, fun c hc => isDigit_of_charIsDigit (hd c hc)⟩

/-- The digits of a number. -/
def ofNat (n : Nat) : DigitRun :=
  ofIsDigit (digitChars n) (digitChars_ne_nil n) fun _ => isDigit_of_mem_digitChars

end DigitRun

theorem exists_writtenNumber_of_dvd {n : Nat} (hn : OnGrid n) (h : unitsPerOne ∣ n) :
    ∃ w : WrittenNumber, w.chars = digitChars (n / unitsPerOne) ∧
      IsNearest (w.value * unitsPerOne) n := by
  refine ⟨⟨.ofNat (n / unitsPerOne), none⟩, rfl, ?_⟩
  have hvalue : (WrittenNumber.mk (.ofNat (n / unitsPerOne)) none).value = (n / unitsPerOne : Nat) := by
    show ((digitsValue (digitChars (n / unitsPerOne)) : Nat) : ℚ) + (0 : Nat) / 10 ^ 0 = _
    rw [digitsValue_digitChars]
    simp
  have hexact : ((n / unitsPerOne : Nat) : ℚ) * unitsPerOne = n := by
    exact_mod_cast Nat.div_mul_cancel h
  rw [hvalue, hexact]
  exact isNearest_natCast hn

/-- A number in the general form is one of the grammar if it has no exponent. -/
theorem exists_writtenNumber_of_not_hasExponent {n : Nat} (hn : OnGrid n) (h : ¬ HasExponent n) :
    ∃ w : WrittenNumber, w.chars = magnitudeChars n ∧ IsNearest (w.value * unitsPerOne) n := by
  obtain ⟨w, hw, he, hv⟩ := exists_written_magnitudeChars hn
  have hnone : w.exponent = none := Option.not_isSome_iff_eq_none.1 fun hs => h (he.1 hs)
  have hfraction : w.fraction ≠ [] := w.marked.resolve_right (by rw [hnone]; decide)
  let number : WrittenNumber := {
    whole := .ofIsDigit w.whole w.whole_ne_nil w.whole_digit
    fraction := some (.ofIsDigit w.fraction hfraction w.fraction_digit) }
  refine ⟨number, ?_, ?_⟩
  · rw [← hw, Written.chars, hnone, fractionChars_of_ne_nil hfraction]
    exact congrArg (w.whole ++ ·) (List.append_nil _).symm
  · have hvalue : w.value.toRat = number.value := by
      rw [← number.toRat_ofDigits, Written.value, hnone]
      rfl
    rwa [← hvalue]

theorem exists_writtenNumber {n : Nat} (hn : OnGrid n) (h : n = 0 ∨ tenThousandthUnits ≤ n) :
    ∃ w : WrittenNumber, w.chars = plainMagnitudeChars n ∧ IsNearest (w.value * unitsPerOne) n := by
  unfold plainMagnitudeChars
  split
  · rename_i hdvd
    exact exists_writtenNumber_of_dvd hn hdvd
  · rename_i hdvd
    have h0 : n ≠ 0 := fun h0 => hdvd (h0 ▸ Nat.dvd_zero _)
    have hle := h.resolve_left h0
    refine exists_writtenNumber_of_not_hasExponent hn ?_
    rw [hasExponent_iff hn hdvd]
    omega

/-! ## Written terms -/

namespace BlankRun

def single : BlankRun := ⟨[' '], List.forall_mem_singleton.2 (by decide)⟩

end BlankRun

/-- A term as it is written in a reduced form, with the blank that follows it. -/
def WrittenTerm.ofForm (operator : Option Operator) (afterOperator : BlankRun) (signed : Bool)
    (number : WrittenNumber) (exponent : Nat) : WrittenTerm where
  margin := .empty
  operator := operator
  afterOperator := afterOperator
  signed := signed
  afterSign := .empty
  factor := some ⟨number, .single, .single⟩
  capital := true
  afterLetter := .empty
  afterCaret := .empty
  exponentNegative := false
  exponentDigits := .ofNat exponent
  trailing := .single

namespace WrittenTerm

variable {operator : Option Operator} {afterOperator : BlankRun} {signed : Bool}
  {number : WrittenNumber} {exponent : Nat}

theorem chars_ofForm : (ofForm operator afterOperator signed number exponent).chars =
    operatorChars operator ++ (afterOperator.chars ++ (minusChars signed ++ (number.chars ++
      (" * X^".toList ++ (digitChars exponent ++ [' ']))))) := by
  have hminus : minusChars false = [] := rfl
  simp [chars, charsFromOperator, body, exponentChars, ofForm, factorChars, WrittenFactor.chars,
    powerChars, letterChar, hminus, BlankRun.empty, BlankRun.single, DigitRun.ofNat,
    DigitRun.ofIsDigit]

theorem exponentValue_ofForm :
    (ofForm operator afterOperator signed number exponent).exponentValue = exponent := by
  show ((digitsValue (digitChars exponent) : Nat) : Int) = exponent
  rw [digitsValue_digitChars]

end WrittenTerm

/-! ## Terms -/

theorem isFinite_tenThousandth : (tenThousandth.toBinary64 false).isFinite := by decide +kernel

theorem units_tenThousandth : units (tenThousandth.toBinary64 false) = tenThousandthUnits := by
  have hfinite := isFinite_tenThousandth
  rw [toBinary64_eq_round, Binary64.round] at hfinite ⊢
  rw [units_ofUnits hfinite, signedUnits_false]
  rfl

theorem le_abs_iff {s : Bool} {n : Nat} {hn : OnGrid n} {b : n < overflowUnits} :
    tenThousandth.toBinary64 false ≤ (finite s n hn b).abs ↔ tenThousandthUnits ≤ n := by
  have habs : units (finite s n hn b).abs = n := signedUnits_false n
  rw [le_iff_units isFinite_tenThousandth rfl, units_tenThousandth, habs, Int.ofNat_le]

theorem abs_lt_iff {s : Bool} {n : Nat} {hn : OnGrid n} {b : n < overflowUnits} :
    (finite s n hn b).abs < tenThousandth.toBinary64 false ↔ n < tenThousandthUnits := by
  have habs : units (finite s n hn b).abs = n := signedUnits_false n
  rw [lt_iff_units rfl isFinite_tenThousandth, units_tenThousandth, habs, Int.ofNat_lt]

namespace Term

/-- The term is written in the grammar. -/
structure Plain (t : Term) : Prop where
  isFinite : t.coefficient.isFinite
  unsigned : t.coefficient ≠ -.zero
  large : t.coefficient.isZero ∨ tenThousandth.toBinary64 false ≤ t.coefficient.abs
  nonneg : 0 ≤ t.exponent
  short : (digitChars t.exponent.natAbs).length ≤ maxExponentDigits

/-- What is written of a plain term: a number of its magnitude, after any signs that make up the
sign of its coefficient. -/
theorem Plain.denotes_ofForm {s : Bool} {n : Nat} {hn : OnGrid n} {b : n < overflowUnits} {e : Int}
    (h : Plain ⟨finite s n hn b, e⟩) {number : WrittenNumber}
    (hv : IsNearest (number.value * unitsPerOne) n) {operator : Option Operator} {signed : Bool}
    (hs : minusCount operator signed = if s then 1 else 0) (afterOperator : BlankRun) :
    (WrittenTerm.ofForm operator afterOperator signed number e.natAbs).Denotes
        ⟨finite s n hn b, e⟩ ∧
      ¬ (WrittenTerm.ofForm operator afterOperator signed number e.natAbs).OutOfRange := by
  have magnitude : (WrittenTerm.ofForm operator afterOperator signed number e.natAbs).Magnitude
      (finite false n hn b) := by
    refine ⟨n, hn, hv, ?_⟩
    rw [ofUnits, dif_pos b]
  have value : (WrittenTerm.ofForm operator afterOperator signed number e.natAbs).exponentValue =
      e.natAbs := WrittenTerm.exponentValue_ofForm
  have he : (e.natAbs : Int) = e := Int.natAbs_of_nonneg h.nonneg
  refine ⟨⟨(value.trans he).symm, _, magnitude, ?_⟩, ?_⟩
  · show finite s n hn b = Neg.neg^[minusCount operator signed] (finite false n hn b)
    rw [hs]
    cases s <;> rfl
  · rintro (hinf | hneg | hlong)
    · cases magnitude.unique hinf
    · rw [value] at hneg
      omega
    · have hshort := h.short
      exact Nat.lt_irrefl _ (Nat.lt_of_le_of_lt hshort hlong)

theorem Plain.exists_writtenNumber {s : Bool} {n : Nat} {hn : OnGrid n} {b : n < overflowUnits}
    {e : Int} (h : Plain ⟨finite s n hn b, e⟩) :
    ∃ w : WrittenNumber, w.chars = plainMagnitudeChars n ∧
      IsNearest (w.value * unitsPerOne) n :=
  PolySolve.exists_writtenNumber hn (h.large.imp beq_iff_eq.1 le_abs_iff.1)

/-- The first term of a form has its sign at the number. -/
theorem Plain.exists_writtenTerm {t : Term} (h : t.Plain) :
    ∃ w : WrittenTerm, w.chars = t.chars ++ [' '] ∧ w.Denotes t ∧ ¬ w.OutOfRange := by
  obtain ⟨c, e⟩ := t
  cases c with
  | nan => exact absurd h.isFinite Bool.false_ne_true
  | infinite s => exact absurd h.isFinite Bool.false_ne_true
  | finite s n hn b =>
    obtain ⟨number, hchars, hv⟩ := h.exists_writtenNumber
    have hs : minusCount none s = if s then 1 else 0 := Nat.zero_add _
    refine ⟨.ofForm none .empty s number e.natAbs, ?_, h.denotes_ofForm hv hs _⟩
    rw [WrittenTerm.chars_ofForm, chars, plainChars_finite h.unsigned, hchars,
      intChars_of_nonneg h.nonneg]
    simp [operatorChars, BlankRun.empty, minusChars]

/-- A later term has its sign as the operator. -/
theorem Plain.exists_writtenTerm_later {t : Term} (h : t.Plain) :
    ∃ w : WrittenTerm, w.operator.isSome ∧ ' ' :: w.chars = t.laterChars ++ [' '] ∧
      w.Denotes t ∧ ¬ w.OutOfRange := by
  obtain ⟨c, e⟩ := t
  cases c with
  | nan => exact absurd h.isFinite Bool.false_ne_true
  | infinite s => exact absurd h.isFinite Bool.false_ne_true
  | finite s n hn b =>
    obtain ⟨number, hchars, hv⟩ := h.exists_writtenNumber
    have hexp := intChars_of_nonneg h.nonneg
    cases s with
    | false =>
      have hsign : ¬ finite false n hn b < Binary64.zero := by
        rw [lt_iff_units rfl rfl, units_zero, units_finite, signedUnits_false]
        omega
      refine ⟨.ofForm (some .plus) .single false number e.natAbs, rfl, ?_,
        h.denotes_ofForm hv rfl _⟩
      rw [WrittenTerm.chars_ofForm, laterChars, if_neg hsign, chars, plainChars_finite h.unsigned,
        hchars, hexp]
      simp [operatorChars, BlankRun.single, minusChars, Operator.char]
    | true =>
      have h0 : n ≠ 0 := by
        rintro rfl
        exact h.unsigned rfl
      have hsign : finite true n hn b < Binary64.zero := by
        rw [lt_iff_units rfl rfl, units_zero, units_finite, signedUnits_true]
        omega
      have hneg : finite false n hn b ≠ -Binary64.zero := fun hz => by cases hz
      refine ⟨.ofForm (some .minus) .single false number e.natAbs, rfl, ?_,
        h.denotes_ofForm hv rfl _⟩
      rw [WrittenTerm.chars_ofForm, laterChars, if_pos hsign]
      show _ = " - ".toList ++ (plainChars (finite false n hn b) ++ " * X^".toList ++
        intChars e) ++ [' ']
      rw [plainChars_finite hneg, hchars, hexp]
      simp [operatorChars, BlankRun.single, minusChars, Operator.char]

end Term

/-! ## Sides -/

/-- Later terms, each with the blank in front of it, are written terms with a blank behind each. -/
theorem exists_writtenTerms_later {ts : List Term} (h : ∀ t ∈ ts, t.Plain) :
    ∃ ws : List WrittenTerm, (∀ w ∈ ws, w.operator.isSome) ∧
      ' ' :: ws.flatMap WrittenTerm.chars = ts.flatMap Term.laterChars ++ [' '] ∧
      List.Forall₂ WrittenTerm.Denotes ws ts ∧ ∀ w ∈ ws, ¬ w.OutOfRange := by
  induction ts with
  | nil => exact ⟨[], by simp, rfl, .nil, by simp⟩
  | cons t ts ih =>
    obtain ⟨w, ho, hw, hd, hr⟩ := (h t List.mem_cons_self).exists_writtenTerm_later
    obtain ⟨ws, hos, hws, hds, hrs⟩ := ih fun u hu => h u (List.mem_cons_of_mem _ hu)
    refine ⟨w :: ws, List.forall_mem_cons.2 ⟨ho, hos⟩, ?_, .cons hd hds,
      List.forall_mem_cons.2 ⟨hr, hrs⟩⟩
    calc ' ' :: (w :: ws).flatMap WrittenTerm.chars
        = t.laterChars ++ ' ' :: ws.flatMap WrittenTerm.chars := by
          rw [List.flatMap_cons, ← List.cons_append, hw, List.append_assoc, List.singleton_append]
      _ = (t :: ts).flatMap Term.laterChars ++ [' '] := by
          rw [hws, List.flatMap_cons, List.append_assoc]

theorem exists_writtenSide {t : Term} {ts : List Term} (h : ∀ u ∈ t :: ts, u.Plain) :
    ∃ s : WrittenSide, s.chars = t.chars ++ ts.flatMap Term.laterChars ++ [' '] ∧
      List.Forall₂ WrittenTerm.Denotes s.terms (t :: ts) ∧ ∀ w ∈ s.terms, ¬ w.OutOfRange := by
  obtain ⟨ht, hts⟩ := List.forall_mem_cons.1 h
  obtain ⟨w, hw, hd, hr⟩ := ht.exists_writtenTerm
  obtain ⟨ws, hos, hws, hds, hrs⟩ := exists_writtenTerms_later hts
  refine ⟨⟨w, ws, hos⟩, ?_, .cons hd hds, List.forall_mem_cons.2 ⟨hr, hrs⟩⟩
  show (w :: ws).flatMap WrittenTerm.chars = _
  rw [List.flatMap_cons, hw, List.append_assoc, List.append_assoc, ← hws]
  rfl

namespace Equation

theorem readable_form_of_ne_nil {p : Polynomial} (hne : p.terms ≠ [])
    (h : ∀ t ∈ p.terms, t.Plain) :
    Readable (p.form ++ [' ']) ∧ sideTerms (p.form ++ [' ']) = .ok p.terms := by
  obtain ⟨t, ts, hp⟩ := List.exists_cons_of_ne_nil hne
  rw [hp] at h
  obtain ⟨s, hs, hd, hr⟩ := exists_writtenSide h
  have hform : s.chars = p.form ++ [' '] := by rw [hs, Polynomial.form, hp]
  obtain ⟨xs, hxs, hx⟩ := sideTerms_chars s hr
  rw [hform] at hxs
  rw [hp]
  exact ⟨Or.inr ⟨s, hform, hr⟩, eq_of_denotes hx hd ▸ hxs⟩

end Equation

/-! ## Characters -/

/-- A character of the grammar. -/
def IsWrittenChar (c : Char) : Prop :=
  isBlank c ∨ isDigit c ∨ c ∈ ['+', '-', '.', '*', 'X', 'x', '^']

instance (c : Char) : Decidable (IsWrittenChar c) :=
  inferInstanceAs (Decidable (_ ∨ _ ∨ _))

theorem isWrittenChar_of_mem_number {n : WrittenNumber} : ∀ c ∈ n.chars, IsWrittenChar c := by
  have digits (d : DigitRun) : ∀ c ∈ d.chars, IsWrittenChar c := fun c hc =>
    Or.inr (Or.inl (d.digit c hc))
  unfold WrittenNumber.chars
  split
  · exact digits _
  · exact List.forall_mem_append.2
      ⟨digits _, List.forall_mem_cons.2 ⟨Or.inr (Or.inr (by decide)), digits _⟩⟩

theorem isWrittenChar_of_mem_term {w : WrittenTerm} : ∀ c ∈ w.chars, IsWrittenChar c := by
  have blanks (b : BlankRun) : ∀ c ∈ b.chars, IsWrittenChar c := fun c hc => Or.inl (b.blank c hc)
  have digits : ∀ c ∈ w.exponentDigits.chars, IsWrittenChar c := fun c hc =>
    Or.inr (Or.inl (w.exponentDigits.digit c hc))
  have caret : IsWrittenChar '^' := Or.inr (Or.inr (by decide))
  have letter (capital : Bool) : IsWrittenChar (letterChar capital) :=
    Or.inr (Or.inr (by cases capital <;> decide))
  have minus (present : Bool) : ∀ c ∈ minusChars present, IsWrittenChar c := by
    cases present with
    | false => exact List.forall_mem_nil _
    | true => exact List.forall_mem_singleton.2 (Or.inr (Or.inr (by decide)))
  have operator (o : Option Operator) : ∀ c ∈ operatorChars o, IsWrittenChar c := by
    rcases o with _ | o
    · exact List.forall_mem_nil _
    · exact List.forall_mem_singleton.2 (Or.inr (Or.inr (by cases o <;> decide)))
  have factor (f : Option WrittenFactor) : ∀ c ∈ factorChars f, IsWrittenChar c := by
    rcases f with _ | f
    · exact List.forall_mem_nil _
    · simp only [factorChars, WrittenFactor.chars, List.forall_mem_append, List.forall_mem_cons]
      exact ⟨isWrittenChar_of_mem_number, blanks _, Or.inr (Or.inr (by decide)), blanks _⟩
  simp only [WrittenTerm.chars, WrittenTerm.charsFromOperator, WrittenTerm.body, powerChars,
    WrittenTerm.exponentChars, List.cons_append, List.forall_mem_append, List.forall_mem_cons]
  exact ⟨blanks _, operator _, blanks _, minus _, blanks _, factor _, letter _,
    ⟨blanks _, caret, blanks _⟩, ⟨minus _, digits⟩, blanks _⟩

/-- A side with another character is no sum of terms. -/
theorem not_grammatical_of_mem {side : List Char} {c : Char} (h : c ∈ side)
    (hc : ¬ IsWrittenChar c) : ¬ Grammatical side := by
  rintro ⟨s, rfl⟩
  obtain ⟨w, -, hw⟩ := List.mem_flatMap.1 h
  exact hc (isWrittenChar_of_mem_term c hw)

/-- A character of a reduced form with finite coefficients. -/
def IsFormChar (c : Char) : Prop := IsNumberChar c ∨ c ∈ [' ', '*', 'X', '^']

theorem Term.isFormChar_of_mem_chars {t : Term} (ht : t.coefficient.isFinite) :
    ∀ c ∈ t.chars, IsFormChar c := by
  have within : " * X^".toList ⊆ [' ', '*', 'X', '^'] := by decide
  have power : ∀ c ∈ " * X^".toList, IsFormChar c := fun c hc => Or.inr (within hc)
  simp only [Term.chars, List.forall_mem_append]
  exact ⟨⟨fun c hc => Or.inl (isNumberChar_of_mem_plainChars ht hc), power⟩,
    fun c hc => Or.inl (isNumberChar_of_mem_intChars hc)⟩

theorem Term.isFormChar_of_mem_laterChars {t : Term} (ht : t.coefficient.isFinite) :
    ∀ c ∈ t.laterChars, IsFormChar c := by
  have operator (o : Char) (ho : o = '+' ∨ o = '-') : ∀ c ∈ [' ', o, ' '], IsFormChar c := by
    rcases ho with rfl | rfl
    all_goals simp [IsFormChar, IsNumberChar]
  have hneg : t.neg.coefficient.isFinite := (isFinite_neg t.coefficient).trans ht
  unfold Term.laterChars
  split
  · exact List.forall_mem_append.2
      ⟨operator '-' (Or.inr rfl), Term.isFormChar_of_mem_chars (t := t.neg) hneg⟩
  · exact List.forall_mem_append.2
      ⟨operator '+' (Or.inl rfl), Term.isFormChar_of_mem_chars ht⟩

theorem Polynomial.isFormChar_of_mem_form {p : Polynomial}
    (h : ∀ t ∈ p.terms, t.coefficient.isFinite) : ∀ c ∈ p.form, IsFormChar c := by
  unfold Polynomial.form
  split
  · exact List.forall_mem_singleton.2 (Or.inl (Or.inl rfl))
  · rename_i t ts hp
    rw [hp] at h
    refine List.forall_mem_append.2 ⟨Term.isFormChar_of_mem_chars (h t List.mem_cons_self), ?_⟩
    intro c hc
    obtain ⟨u, hu, hc⟩ := List.mem_flatMap.1 hc
    exact Term.isFormChar_of_mem_laterChars (h u (List.mem_cons_of_mem _ hu)) c hc

/-! ## Coefficients with an exponent -/

theorem mem_plainChars_of_lt {s : Bool} {n : Nat} {hn : OnGrid n} {b : n < overflowUnits}
    (h0 : n ≠ 0) (h : n < tenThousandthUnits) : 'e' ∈ plainChars (finite s n hn b) := by
  have hne : finite s n hn b ≠ -Binary64.zero := fun hz => by
    cases hz
    exact h0 rfl
  rw [plainChars_finite hne]
  exact List.mem_append_right _ (mem_plainMagnitudeChars_of_lt hn h0 h)

/-- A coefficient that is not zero and below the value nearest to `0.0001`. -/
structure Term.Small (t : Term) : Prop where
  ne_zero : t.coefficient.isZero = false
  lt : t.coefficient.abs < tenThousandth.toBinary64 false

theorem Term.isZero_or_le_of_not_small {t : Term} (ht : t.coefficient.isFinite) (h : ¬ t.Small) :
    t.coefficient.isZero ∨ tenThousandth.toBinary64 false ≤ t.coefficient.abs := by
  by_contra hnot
  rw [not_or, Bool.not_eq_true] at hnot
  refine h ⟨hnot.1, ?_⟩
  have habs : t.coefficient.abs.isFinite := (isFinite_abs t.coefficient).trans ht
  rw [le_iff_units isFinite_tenThousandth habs] at hnot
  rw [lt_iff_units habs isFinite_tenThousandth]
  omega

theorem Term.Small.mem_chars {t : Term} (h : t.Small) (ht : t.coefficient.isFinite) :
    'e' ∈ t.chars ∧ 'e' ∈ t.laterChars := by
  obtain ⟨c, e⟩ := t
  cases c with
  | nan => contradiction
  | infinite s => contradiction
  | finite s n hn b =>
    have h0 : n ≠ 0 := beq_eq_false_iff_ne.1 h.ne_zero
    have small : n < tenThousandthUnits := abs_lt_iff.1 h.lt
    have mem (s : Bool) : 'e' ∈ Term.chars ⟨finite s n hn b, e⟩ :=
      List.mem_append_left _ (List.mem_append_left _ (mem_plainChars_of_lt h0 small))
    refine ⟨mem s, ?_⟩
    unfold Term.laterChars
    split
    · exact List.mem_append_right _ (mem (!s))
    · exact List.mem_append_right _ (mem s)

theorem Polynomial.mem_form_of_small {p : Polynomial} (h : ∀ t ∈ p.terms, t.coefficient.isFinite)
    {t : Term} (ht : t ∈ p.terms) (hs : t.Small) : 'e' ∈ p.form := by
  have mem := hs.mem_chars (h t ht)
  unfold Polynomial.form
  split
  · rename_i hp
    rw [hp] at ht
    contradiction
  · rename_i u us hp
    rw [hp] at ht
    rcases List.mem_cons.1 ht with rfl | ht
    · exact List.mem_append_left _ mem.1
    · exact List.mem_append_right _ (List.mem_flatMap.2 ⟨t, ht, mem.2⟩)

namespace Equation

/-- A side that is well formed has the characters of the grammar only. -/
theorem isWrittenChar_of_wellFormed {side : List Char} (h : WellFormed side) :
    ∀ c ∈ side, IsWrittenChar c := by
  intro c hc
  by_contra hnot
  rcases h with hz | hg
  · have hblank : isBlank c = false := Bool.eq_false_iff.2 fun hb => hnot (Or.inl hb)
    have hmem := mem_trim hc hblank
    rw [hz, List.mem_singleton] at hmem
    subst hmem
    exact hnot (by decide)
  · exact not_grammatical_of_mem hc hnot hg

/-- A side with the letter of an exponent is refused where it stops being a sum of terms. -/
theorem formFault_of_mem {side : List Char} (h : 'e' ∈ side) :
    ∃ rest, FormFault side (.termFormat rest) := by
  rcases wellFormed_or_formFault side with hw | ⟨e, he⟩
  · exact absurd (isWrittenChar_of_wellFormed hw 'e' h) (by decide)
  · rcases he.kind with ⟨hall, -⟩ | ⟨-, rest, rfl⟩
    · exact absurd (hall 'e' h) (by decide)
    · exact ⟨rest, he⟩

/-! ## What was read before -/

/-- An exponent that is read. -/
def IsReadExponent (e : Int) : Prop := 0 ≤ e ∧ (digitChars e.natAbs).length ≤ maxExponentDigits

theorem isReadExponent_of_denotes {w : WrittenTerm} {t : Term} (h : w.Denotes t)
    (hw : ¬ w.OutOfRange) : IsReadExponent t.exponent := by
  simp only [WrittenTerm.OutOfRange, not_or, not_lt] at hw
  obtain ⟨-, hneg, hlong⟩ := hw
  have habs : w.exponentValue.natAbs = digitsValue w.exponentDigits.chars := by
    unfold WrittenTerm.exponentValue
    split <;> simp
  rw [IsReadExponent, h.exponent, habs]
  exact ⟨hneg, (length_digitChars_digitsValue_le w.exponentDigits.ne_nil).trans hlong⟩

theorem isReadExponent_zero : IsReadExponent 0 := ⟨Int.le_refl 0, by decide⟩

theorem isReadExponent_of_sideTerms {side : List Char} {xs : List Term} (h : Readable side)
    (hxs : sideTerms side = .ok xs) : ∀ t ∈ xs, IsReadExponent t.exponent :=
  forall_of_sideTerms h hxs isReadExponent_zero fun _ _ => isReadExponent_of_denotes

/-- A polynomial that is read is reduced, and its exponents can be read again. -/
theorem exists_reduce_of_polynomial {text : List Char} {p : Polynomial}
    (h : polynomial text = .ok p) :
    ∃ ts, p = Polynomial.reduce ts ∧ ∀ t ∈ p.terms, IsReadExponent t.exponent := by
  cases polynomial_eq_iff_verdict.1 h with
  | @read left right ts hs hl hr ht =>
    refine ⟨ts.difference, rfl, fun t hmem => ?_⟩
    obtain ⟨xs, hxs, -⟩ := sideTerms_of_readable hl
    obtain ⟨ys, hys, -⟩ := sideTerms_of_readable hr
    rw [terms_of_sides hs, hxs, hys] at ht
    obtain rfl := Except.ok.inj ht
    obtain ⟨u, hu, he⟩ := Polynomial.exists_mem_of_mem_reduce hmem
    rw [← he]
    rcases List.mem_append.1 hu with hu | hu
    · exact isReadExponent_of_sideTerms hl hxs u hu
    · obtain ⟨v, hv, rfl⟩ := List.mem_map.1 hu
      exact isReadExponent_of_sideTerms hr hys v hv

/-! ## Forms as equations -/

/-- The reduced form as an equation to zero. -/
def formEquation (p : Polynomial) : List Char := p.form ++ " = 0".toList

theorem sides_formEquation {p : Polynomial} (h : ∀ t ∈ p.terms, t.coefficient.isFinite) :
    Sides (formEquation p) (p.form ++ [' ']) [' ', '0'] := by
  refine ⟨?_, fun hm => ?_, by decide⟩
  · rw [formEquation, List.append_assoc]
    rfl
  · rcases List.mem_append.1 hm with hm | hm
    · rcases p.isFormChar_of_mem_form h '=' hm with (hd | hd) | hd <;> revert hd <;> decide
    · revert hm
      decide

theorem readable_zero : Readable [' ', '0'] ∧ sideTerms [' ', '0'] = .ok [⟨.zero, 0⟩] :=
  ⟨Or.inl rfl, sideTerms_of_zeroSide rfl⟩

theorem polynomial_formEquation {p : Polynomial} {ts : List Term}
    (h : ∀ t ∈ p.terms, t.coefficient.isFinite) (hr : Readable (p.form ++ [' ']))
    (hts : sideTerms (p.form ++ [' ']) = .ok ts) :
    polynomial (formEquation p) = .ok (Polynomial.reduce (ts ++ [⟨-.zero, 0⟩])) := by
  have hsides := sides_formEquation h
  have hterms : terms (formEquation p) = .ok ⟨ts, [⟨.zero, 0⟩]⟩ := by
    rw [terms_of_sides hsides, hts, readable_zero.2]
    rfl
  exact (Verdict.read hsides hr readable_zero.1 hterms).polynomial_eq

/-- A form of plain terms is read as the polynomial, perhaps with a zero stored as its constant. -/
theorem polynomial_formEquation_of_plain {ts : List Term}
    (h : ∀ t ∈ (Polynomial.reduce ts).terms, t.Plain) :
    ∃ q, polynomial (formEquation (Polynomial.reduce ts)) = .ok q ∧
      (q.terms = (Polynomial.reduce ts).terms ∨
        q.terms = ⟨.zero, 0⟩ :: (Polynomial.reduce ts).terms) := by
  have hfinite := fun t ht => (h t ht).isFinite
  by_cases hne : (Polynomial.reduce ts).terms = []
  · have hform : (Polynomial.reduce ts).form ++ [' '] = ['0', ' '] := by
      rw [Polynomial.form, hne]
      rfl
    have hzero : trim ((Polynomial.reduce ts).form ++ [' ']) = ['0'] := by
      rw [hform]
      rfl
    refine ⟨_, polynomial_formEquation hfinite (Or.inl hzero) (sideTerms_of_zeroSide hzero), ?_⟩
    rw [hne]
    exact Or.inr (by decide +kernel)
  · obtain ⟨hr, hts⟩ := readable_form_of_ne_nil hne h
    exact ⟨_, polynomial_formEquation hfinite hr hts,
      Polynomial.terms_reduce_append fun t ht => (h t ht).nonneg⟩

theorem polynomial_formEquation_of_small {p : Polynomial}
    (h : ∀ t ∈ p.terms, t.coefficient.isFinite) {t : Term} (ht : t ∈ p.terms) (hs : t.Small) :
    ∃ rest, polynomial (formEquation p) = .error (.termFormat rest) := by
  have hmem : 'e' ∈ p.form ++ [' '] := List.mem_append_left _ (p.mem_form_of_small h ht hs)
  obtain ⟨rest, hfault⟩ := formFault_of_mem hmem
  exact ⟨rest, (Verdict.leftForm (sides_formEquation h) hfault).polynomial_eq⟩

/-- A form without exponents is read as the same coefficients. -/
theorem polynomial_formEquation_of_large {text : List Char} {p : Polynomial}
    (h : polynomial text = .ok p) (finite : ∀ t ∈ p.terms, t.coefficient.isFinite)
    (hlarge : ∀ t ∈ p.terms,
      t.coefficient.isZero ∨ tenThousandth.toBinary64 false ≤ t.coefficient.abs) :
    ∃ q, polynomial (formEquation p) = .ok q ∧ (∀ e, q.coefficient e = p.coefficient e) ∧
      (q.terms = p.terms ∨ q.terms = ⟨.zero, 0⟩ :: p.terms) := by
  obtain ⟨ts, rfl, exponents⟩ := exists_reduce_of_polynomial h
  obtain ⟨q, hq, hterms⟩ := polynomial_formEquation_of_plain fun t ht =>
    ⟨finite t ht, Polynomial.ne_of_mem_reduce ht, hlarge t ht, (exponents t ht).1,
      (exponents t ht).2⟩
  exact ⟨q, hq, Polynomial.coefficient_eq_of_terms hterms, hterms⟩

/-- The reduced form of an equation with finite coefficients, taken as an equation to zero, is read
as the same coefficients unless one of them has an exponent, that is, is not zero and below the
value nearest to `0.0001`. Then the form is refused. -/
theorem formEquation_reads_back {text : List Char} {p : Polynomial} (h : polynomial text = .ok p)
    (finite : ∀ t ∈ p.terms, t.coefficient.isFinite) :
    ((∀ t ∈ p.terms,
        t.coefficient.isZero ∨ tenThousandth.toBinary64 false ≤ t.coefficient.abs) →
      ∃ q, polynomial (formEquation p) = .ok q ∧ (∀ e, q.coefficient e = p.coefficient e) ∧
        (q.terms = p.terms ∨ q.terms = ⟨.zero, 0⟩ :: p.terms)) ∧
    ((∃ t ∈ p.terms, t.coefficient.isZero = false ∧
        t.coefficient.abs < tenThousandth.toBinary64 false) →
      ∃ rest, polynomial (formEquation p) = .error (.termFormat rest)) ∧
    ∀ q, polynomial (formEquation p) = .ok q → ∀ e, q.coefficient e = p.coefficient e := by
  refine ⟨polynomial_formEquation_of_large h finite, fun ⟨t, ht, h0, hlt⟩ =>
    polynomial_formEquation_of_small finite ht ⟨h0, hlt⟩, fun q hq => ?_⟩
  by_cases hsmall : ∃ t ∈ p.terms, t.Small
  · obtain ⟨t, ht, hs⟩ := hsmall
    obtain ⟨rest, hrest⟩ := polynomial_formEquation_of_small finite ht hs
    rw [hrest] at hq
    contradiction
  · obtain ⟨q', hq', hcoefficient, -⟩ := polynomial_formEquation_of_large h finite fun t ht =>
      t.isZero_or_le_of_not_small (finite t ht) fun hs => hsmall ⟨t, ht, hs⟩
    obtain rfl := Except.ok.inj (hq'.symm.trans hq)
    exact hcoefficient

/-- An equation whose form is read back, and one whose coefficient has an exponent. -/
theorem formEquation_of_two_read :
    (∃ p q, polynomial "x^1=0".toList = .ok p ∧ polynomial (formEquation p) = .ok q ∧
      q.coefficient 1 = 1) ∧
    ∃ p rest, polynomial "0.00001*x^1=0".toList = .ok p ∧
      polynomial (formEquation p) = .error (.termFormat rest) := by
  have large : polynomial "x^1=0".toList = .ok (Polynomial.reduce [⟨1, 1⟩, ⟨-.zero, 0⟩]) := by
    decide +kernel
  have small : polynomial "0.00001*x^1=0".toList =
      .ok (Polynomial.reduce [⟨(⟨1, -5⟩ : Decimal).toBinary64 false, 1⟩, ⟨-.zero, 0⟩]) := by
    decide +kernel
  obtain ⟨read, -⟩ := formEquation_reads_back large (by decide +kernel)
  obtain ⟨-, refused, -⟩ := formEquation_reads_back small (by decide +kernel)
  obtain ⟨q, hq, hcoefficient, -⟩ := read (by decide +kernel)
  obtain ⟨rest, hrest⟩ := refused (by decide +kernel)
  refine ⟨⟨_, q, large, hq, (hcoefficient 1).trans (by decide +kernel)⟩, _, rest, small, hrest⟩

end Equation

end PolySolve
