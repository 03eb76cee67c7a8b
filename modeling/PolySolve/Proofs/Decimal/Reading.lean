import PolySolve.Proofs.Decimal.General
import PolySolve.Proofs.Text.Runs

/-!
# Plain numbers read back

A plain number is some digits, then perhaps a point with digits, then perhaps
an exponent. The reader for numbers takes these parts again, and rounds the
decimal that they make up to the value that was written.

* `Numeral`: such a text, with the decimal that it stands for;
* `Numeral.unsigned?_eq`: what the reader makes of it;
* `exists_numeral_plainMagnitudeChars`: plain numbers are of this form;
* `value?_plainChars`: a plain number reads back.
-/

namespace PolySolve.Decimal

open Binary64 Text

-- The elaborator must not evaluate these powers of two.
attribute [local irreducible] overflowUnits unitsPerOne

/-! ## The parts of a number -/

/-- A text of digits, perhaps a point and digits, perhaps an exponent, and the decimal that it
stands for. -/
inductive Numeral : List Char → Decimal → Prop
  | parts {whole fraction : List Char} (exponent : Option Int) (hne : whole ≠ [])
      (hwhole : ∀ c ∈ whole, c.isDigit) (hfraction : ∀ c ∈ fraction, c.isDigit) :
      Numeral (whole ++ (fractionChars fraction ++ exponentPartChars exponent))
        (ofDigits whole fraction (exponent.getD 0))

theorem Written.numeral (w : Written) : Numeral w.chars w.value :=
  .parts w.exponent w.whole_ne_nil w.whole_digit w.fraction_digit

theorem numeral_digitChars (n : Nat) : Numeral (digitChars n) ⟨n, 0⟩ := by
  have hnumeral := @Numeral.parts (digitChars n) [] none (digitChars_ne_nil n)
    (fun _ => isDigit_of_mem_digitChars) fun _ h => absurd h List.not_mem_nil
  have hvalue : ofDigits (digitChars n) [] 0 = ⟨n, 0⟩ := by
    rw [ofDigits, List.append_nil, digitsValue_digitChars]
    rfl
  have hchars : digitChars n ++ (fractionChars [] ++ exponentPartChars none) = digitChars n :=
    List.append_nil _
  rwa [Option.getD_none, hvalue, hchars] at hnumeral

theorem stops_exponentPartChars (exponent : Option Int) :
    Stops isDigit (exponentPartChars exponent) := by
  cases exponent with
  | none => exact fun c hc => absurd hc (Option.not_mem_none c)
  | some e => exact stops_cons (by decide) _

section

variable {whole fraction cs : List Char} {d : Decimal}

theorem stops_fractionChars (fraction : List Char) (exponent : Option Int) :
    Stops isDigit (fractionChars fraction ++ exponentPartChars exponent) := by
  unfold fractionChars
  split
  · exact stops_exponentPartChars exponent
  · exact stops_cons (by decide) _

theorem splitFraction_parts (hfraction : ∀ c ∈ fraction, c.isDigit) (exponent : Option Int) :
    splitFraction (fractionChars fraction ++ exponentPartChars exponent) =
      (fraction, exponentPartChars exponent) := by
  unfold fractionChars
  split
  · rename_i hnil
    subst hnil
    cases exponent <;> rfl
  · obtain ⟨hrest, htaken⟩ := dropWhile_append_of_stops
      (fun c hc => isDigit_of_charIsDigit (hfraction c hc)) (stops_exponentPartChars exponent)
    rw [List.cons_append, splitFraction, hrest, htaken]

theorem exponent?_exponentPartChars (exponent : Option Int) :
    exponent? (exponentPartChars exponent) = some (exponent.getD 0) := by
  cases exponent with
  | none => rfl
  | some e =>
    have hdigits : (paddedDigits 2 e.natAbs).all isDigit := List.all_eq_true.2 fun c hc =>
      isDigit_of_charIsDigit (isDigit_of_mem_paddedDigits hc)
    have hne := paddedDigits_ne_nil 2 e.natAbs
    have hvalue := digitsValue_paddedDigits 2 e.natAbs
    unfold exponentPartChars exponentChars exponent?
    by_cases hneg : e < 0
    · simp [hneg, hne, hdigits, hvalue, abs_of_neg hneg]
    · simp [hneg, hne, hdigits, hvalue, Int.not_lt.1 hneg]

theorem Numeral.unsigned?_eq (h : Numeral cs d) : unsigned? cs = some d := by
  obtain @⟨whole, fraction, exponent, hne, hwhole, hfraction⟩ := h
  obtain ⟨hrest, htaken⟩ := dropWhile_append_of_stops
    (fun c hc => isDigit_of_charIsDigit (hwhole c hc)) (stops_fractionChars fraction exponent)
  unfold unsigned?
  dsimp only
  rw [htaken, hrest, splitFraction_parts hfraction]
  dsimp only
  rw [if_neg fun hnil => hne hnil.1, exponent?_exponentPartChars]
  rfl

theorem Numeral.isNumberChar_of_mem (h : Numeral cs d) {c : Char} (hc : c ∈ cs) :
    IsNumberChar c := by
  obtain ⟨exponent, -, hwhole, hfraction⟩ := h
  exact isNumberChar_of_mem_parts hwhole hfraction hc

/-- A digit comes first. -/
theorem Numeral.exists_cons (h : Numeral cs d) : ∃ c rest, cs = c :: rest ∧ c.isDigit := by
  obtain @⟨whole, fraction, exponent, hne, hwhole, -⟩ := h
  obtain ⟨c, rest, rfl⟩ := List.exists_cons_of_ne_nil hne
  exact ⟨c, _, rfl, hwhole c List.mem_cons_self⟩

end

/-! ## Magnitudes -/

theorem exists_numeral_plainMagnitudeChars {n : Nat} (hn : OnGrid n) :
    ∃ d, Numeral (plainMagnitudeChars n) d ∧ IsNearest (d.toRat * unitsPerOne) n := by
  unfold plainMagnitudeChars
  split
  · rename_i hdvd
    refine ⟨_, numeral_digitChars _, ?_⟩
    have hvalue : (Decimal.mk (n / unitsPerOne) 0).toRat * unitsPerOne = n := by
      rw [toRat, zpow_zero, mul_one]
      exact_mod_cast Nat.div_mul_cancel hdvd
    rw [hvalue]
    exact isNearest_natCast hn
  · obtain ⟨w, hchars, -, hnearest⟩ := exists_written_magnitudeChars hn
    exact ⟨w.value, hchars ▸ w.numeral, hnearest⟩

/-! ## Reading -/

theorem dropUnderscores?_of_not_mem {cs : List Char} (h : '_' ∉ cs) :
    dropUnderscores? cs = some cs := by
  induction cs with
  | nil => rfl
  | cons c rest ih =>
    have hrest := ih fun hmem => h (List.mem_cons_of_mem _ hmem)
    unfold dropUnderscores?
    split <;> simp_all

theorem not_isNumberChar_underscore : ¬ IsNumberChar '_' := by
  unfold IsNumberChar
  decide

theorem isMargin_of_isNumberChar {c : Char} (h : IsNumberChar c) : isMargin c = false := by
  unfold isMargin
  rcases h with hdigit | hmem
  · rw [isBlank_of_isDigit (isDigit_of_charIsDigit hdigit), Bool.false_and]
  · have hall : ['.', 'e', '+', '-'].all (isMargin · == false) := by decide
    exact beq_iff_eq.1 (List.all_eq_true.1 hall c hmem)

/-- A number has no margins. -/
theorem value?_of_isNumberChar {cs : List Char} (h : ∀ c ∈ cs, IsNumberChar c) :
    value? cs = signed? cs := by
  have hstops {ds : List Char} (hds : ∀ c ∈ ds, IsNumberChar c) : ds.dropWhile isMargin = ds :=
    (dropWhile_of_stops fun c hc =>
      isMargin_of_isNumberChar (hds c (List.mem_of_mem_head? hc))).1
  rw [value?, hstops h, hstops fun c hc => h c (List.mem_reverse.1 hc), List.reverse_reverse]

/-- The sign in front of a number is read, and then the number. -/
theorem Numeral.signed?_eq {cs : List Char} {d : Decimal} (h : Numeral cs d) (s : Bool) :
    signed? ((if s then ['-'] else []) ++ cs) = some (d.toBinary64 s) := by
  have hunderscore : '_' ∉ cs := fun hmem =>
    not_isNumberChar_underscore (h.isNumberChar_of_mem hmem)
  have hread : (dropUnderscores? cs).bind unsigned? = some d := by
    rw [dropUnderscores?_of_not_mem hunderscore]
    exact h.unsigned?_eq
  obtain ⟨c, rest, hcons, hdigit⟩ := h.exists_cons
  cases s with
  | true =>
    unfold signed?
    simp only [if_true, List.singleton_append, hread]
  | false =>
    have hminus : c ≠ '-' := by
      rintro rfl
      contradiction
    have hplus : c ≠ '+' := by
      rintro rfl
      contradiction
    rw [if_neg Bool.false_ne_true, List.nil_append]
    rw [hcons] at hread ⊢
    unfold signed?
    simp [hread, hminus, hplus]

theorem Numeral.value?_eq {cs : List Char} {d : Decimal} (h : Numeral cs d) (s : Bool) :
    value? ((if s then ['-'] else []) ++ cs) = some (d.toBinary64 s) := by
  rw [value?_of_isNumberChar, h.signed?_eq]
  intro c hc
  rcases List.mem_append.1 hc with hc | hc
  · split at hc
    · rw [List.mem_singleton.1 hc]
      exact Or.inr (by decide)
    · contradiction
  · exact h.isNumberChar_of_mem hc

/-- A plain number reads back as the value that it was written for. -/
theorem value?_plainChars {x : Binary64} (hx : x.isFinite) (hne : x ≠ -zero) :
    value? (plainChars x) = some x := by
  cases x with
  | nan => contradiction
  | infinite s => contradiction
  | finite s n hn b =>
    obtain ⟨d, hnumeral, hnearest⟩ := exists_numeral_plainMagnitudeChars hn
    rw [plainChars_finite hne, hnumeral.value?_eq, toBinary64_of_isNearest hnearest, ofUnits,
      dif_pos b]

end PolySolve.Decimal
