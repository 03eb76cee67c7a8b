import PolySolve.Equation.Token
import PolySolve.Polynomial.Form
import PolySolve.Proofs.Decimal.Plain

/-!
# The pieces of a reduced form

A reduced form is cut into its terms again at each plus or minus between blanks. A term has the text
of its coefficient's magnitude, and the sign of the coefficient stands in front of it: at the first
term, or as the operator between two terms. Neither the number nor the exponent brings a sign next
to an operator, as a blank stands behind each operator and the number behind that has no sign.

* `cutAtOperators`: the cut;
* `plainChars_eq_signed`: the sign of a number and its magnitude;
* `FormPiece.Represents`: how a piece of a form belongs to a term;
* `not_hasSignPair_form`: no two signs meet;
* `pieces_of_form`: the pieces of a form are those of its terms.
-/

namespace PolySolve

open Binary64 Decimal

/-! ## Cutting a text -/

/-- A text cut at each plus or minus between two blanks: what stands in front of the first one, and
each of them with what stands behind it. -/
def cutAtOperators : List Char → List Char × List (Operator × List Char)
  | [] => ([], [])
  | ' ' :: '+' :: ' ' :: cs => ([], (.plus, (cutAtOperators cs).1) :: (cutAtOperators cs).2)
  | ' ' :: '-' :: ' ' :: cs => ([], (.minus, (cutAtOperators cs).1) :: (cutAtOperators cs).2)
  | c :: cs => (c :: (cutAtOperators cs).1, (cutAtOperators cs).2)

theorem cutAtOperators_operator (o : Operator) (cs : List Char) :
    cutAtOperators (' ' :: o.char :: ' ' :: cs) =
      ([], (o, (cutAtOperators cs).1) :: (cutAtOperators cs).2) := by
  cases o <;> rfl

/-- A text is not cut where it has no blanks. -/
theorem cutAtOperators_append {run : List Char} (h : ' ' ∉ run) (rest : List Char) :
    cutAtOperators (run ++ rest) =
      (run ++ (cutAtOperators rest).1, (cutAtOperators rest).2) := by
  induction run with
  | nil => rfl
  | cons c run ih =>
    have hc : c ≠ ' ' := fun hc => h (hc ▸ List.mem_cons_self)
    rw [List.cons_append, cutAtOperators.eq_4 _ _ (fun _ hp => absurd hp hc)
      (fun _ hm => absurd hm hc), ih fun hmem => h (List.mem_cons_of_mem _ hmem)]
    rfl

/-! ## Signs of numbers -/

/-- The sign of a coefficient is that of its number. -/
theorem plainChars_eq_signed (c : Binary64) :
    plainChars c = (if c < .zero then ['-'] else []) ++ plainChars c.abs := by
  cases c with
  | nan => rfl
  | infinite s => cases s <;> rfl
  | finite s n hn b =>
    have habs : finite false n hn b ≠ -.zero := fun hz => by cases hz
    by_cases hzero : finite s n hn b = -.zero
    · rw [hzero]
      decide +kernel
    · have hsign : finite s n hn b < .zero ↔ s = true := by
        rw [lt_iff_units rfl rfl, units_zero, units_finite]
        cases s with
        | false =>
          rw [signedUnits_false]
          exact ⟨fun h => absurd h (by omega), fun h => absurd h Bool.false_ne_true⟩
        | true =>
          have h0 : n ≠ 0 := by
            rintro rfl
            exact hzero rfl
          rw [signedUnits_true]
          exact ⟨fun _ => rfl, fun _ => by omega⟩
      rw [plainChars_finite hzero]
      show _ = _ ++ plainChars (finite false n hn b)
      rw [plainChars_finite habs, if_neg Bool.false_ne_true, List.nil_append]
      simp only [hsign]

theorem neg_eq_abs {c : Binary64} (h : c < .zero) : -c = c.abs := by
  cases c with
  | nan => rfl
  | infinite s => cases s <;> first | rfl | contradiction
  | finite s n hn b =>
    cases s with
    | true => rfl
    | false =>
      rw [lt_iff_units rfl rfl, units_zero, units_finite, signedUnits_false] at h
      omega

/-! ## Pieces -/

/-- A number and a power of `X`, and whether they stand behind a minus. -/
structure FormPiece where
  negative : Bool
  number : List Char
  exponent : Int

namespace FormPiece

variable (q : FormPiece)

def chars : List Char := q.number ++ (" * X^".toList ++ intChars q.exponent)

/-- The text at the front of a form. -/
def firstChars : List Char := (if q.negative then ['-'] else []) ++ q.chars

def operator : Operator := if q.negative then .minus else .plus

/-- The text behind another piece. -/
def laterChars : List Char := ' ' :: q.operator.char :: ' ' :: q.chars

/-- A form is cut into these pieces; `0` is the form without pieces. -/
def cut : List FormPiece → List Char × List (Operator × List Char)
  | [] => (['0'], [])
  | q :: qs => (q.firstChars, qs.map fun r => (r.operator, r.chars))

/-- The sign and the magnitude of a term's coefficient, and its exponent. -/
structure Represents (t : Term) : Prop where
  negative : q.negative ↔ t.coefficient < .zero
  value : value? q.number = some t.coefficient.abs
  exponent : q.exponent = t.exponent
  no_blank : ' ' ∉ q.number
  no_sign : ∀ o : Operator, q.number.head? ≠ some o.char

end FormPiece

namespace Term

def piece (t : Term) : FormPiece :=
  ⟨decide (t.coefficient < .zero), plainChars t.coefficient.abs, t.exponent⟩

theorem firstChars_piece (t : Term) : t.piece.firstChars = t.chars := by
  rw [chars, plainChars_eq_signed, FormPiece.firstChars, FormPiece.chars]
  simp [piece]

theorem laterChars_piece (t : Term) : t.piece.laterChars = t.laterChars := by
  unfold laterChars FormPiece.laterChars FormPiece.operator FormPiece.chars
  by_cases h : t.coefficient < .zero
  · rw [if_pos h, chars, neg, neg_eq_abs h]
    simp [piece, h, Operator.char]
  · rw [if_neg h, chars, plainChars_eq_signed, if_neg h]
    simp [piece, h, Operator.char]

theorem not_isDigit_operator (o : Operator) : ¬ o.char.isDigit := by
  cases o <;> exact Bool.false_ne_true

theorem represents_piece (t : Term) : t.piece.Represents t := by
  obtain ⟨c, e⟩ := t
  suffices value? (plainChars c.abs) = some c.abs ∧ ' ' ∉ plainChars c.abs ∧
      ∀ o : Operator, (plainChars c.abs).head? ≠ some o.char from
    ⟨decide_eq_true_iff, this.1, rfl, this.2.1, this.2.2⟩
  cases c with
  | nan => exact ⟨by decide, by decide, fun o => by cases o <;> decide⟩
  | infinite s =>
    show value? (plainChars (infinite false)) = some (infinite false) ∧
      ' ' ∉ plainChars (infinite false) ∧
      ∀ o : Operator, (plainChars (infinite false)).head? ≠ some o.char
    exact ⟨by decide, by decide, fun o => by cases o <;> decide⟩
  | finite s n hn b =>
    have habs : finite false n hn b ≠ -.zero := fun hz => by cases hz
    have hfinite : (finite false n hn b).isFinite := rfl
    show value? (plainChars (finite false n hn b)) = some (finite false n hn b) ∧
      ' ' ∉ plainChars (finite false n hn b) ∧
      ∀ o : Operator, (plainChars (finite false n hn b)).head? ≠ some o.char
    refine ⟨value?_plainChars hfinite habs, fun hmem => ?_, fun o ho => ?_⟩
    · rcases isNumberChar_of_mem_plainChars hfinite hmem with h | h <;> revert h <;> decide
    · obtain ⟨d, hnumeral, -⟩ := exists_numeral_plainMagnitudeChars hn
      obtain ⟨c, rest, hcons, hdigit⟩ := hnumeral.exists_cons
      rw [plainChars_finite habs, if_neg Bool.false_ne_true, List.nil_append, hcons] at ho
      rw [Option.some.inj ho] at hdigit
      exact not_isDigit_operator o hdigit

end Term

theorem Polynomial.form_eq_pieces {p : Polynomial} {t : Term} {ts : List Term}
    (h : p.terms = t :: ts) :
    p.form = t.piece.firstChars ++ (ts.map Term.piece).flatMap FormPiece.laterChars := by
  rw [form, h, List.flatMap_map, t.firstChars_piece]
  simp only [Term.laterChars_piece]

/-! ## The cut -/

theorem blank_not_mem_intChars (e : Int) : ' ' ∉ intChars e :=
  not_mem_intChars (by decide) (by decide)

theorem FormPiece.cutAtOperators_chars {q : FormPiece} (h : ' ' ∉ q.number) (rest : List Char) :
    cutAtOperators (q.chars ++ rest) =
      (q.chars ++ (cutAtOperators rest).1, (cutAtOperators rest).2) := by
  have hpower (cs : List Char) : cutAtOperators (" * X^".toList ++ cs) =
      (" * X^".toList ++ (cutAtOperators cs).1, (cutAtOperators cs).2) := rfl
  rw [chars, List.append_assoc, List.append_assoc, cutAtOperators_append h, hpower,
    cutAtOperators_append (blank_not_mem_intChars q.exponent)]
  simp only [List.append_assoc]

theorem FormPiece.cutAtOperators_later {qs : List FormPiece} (h : ∀ q ∈ qs, ' ' ∉ q.number) :
    cutAtOperators (qs.flatMap laterChars) = ([], qs.map fun q => (q.operator, q.chars)) := by
  induction qs with
  | nil => rfl
  | cons q qs ih =>
    have hlater := ih fun r hr => h r (List.mem_cons_of_mem _ hr)
    rw [List.flatMap_cons, laterChars, List.cons_append, List.cons_append, List.cons_append,
      cutAtOperators_operator, cutAtOperators_chars (h q List.mem_cons_self), hlater]
    rw [List.append_nil, List.map_cons]

theorem FormPiece.cutAtOperators_first {q : FormPiece} {qs : List FormPiece}
    (h : ∀ r ∈ q :: qs, ' ' ∉ r.number) :
    cutAtOperators (q.firstChars ++ qs.flatMap laterChars) = cut (q :: qs) := by
  have hsign : ' ' ∉ (if q.negative then ['-'] else []) := by
    split <;> decide
  rw [firstChars, List.append_assoc, cutAtOperators_append hsign,
    cutAtOperators_chars (h q List.mem_cons_self),
    cutAtOperators_later fun r hr => h r (List.mem_cons_of_mem _ hr), List.append_nil]
  rfl

/-! ## No two signs meet -/

/-- Somewhere a sign is followed by a blank and a sign. -/
def HasSignPair (cs : List Char) : Prop := ∃ o o' : Operator, [o.char, ' ', o'.char] <:+: cs

theorem hasSignPair_cons {c : Char} {cs : List Char} :
    HasSignPair (c :: cs) ↔
      (∃ o o' : Operator, o.char = c ∧ [' ', o'.char] <+: cs) ∨ HasSignPair cs := by
  simp only [HasSignPair, List.infix_cons_iff, List.cons_prefix_cons, exists_or]

/-- No sign pair starts in a run without signs. -/
theorem hasSignPair_of_run {run rest : List Char} (h : ∀ o : Operator, o.char ∉ run)
    (hpair : HasSignPair (run ++ rest)) : HasSignPair rest := by
  obtain ⟨o, o', hpair⟩ := hpair
  exact ⟨o, o', infix_of_append run (h o) hpair⟩

theorem hasSignPair_of_blank {cs : List Char} (h : HasSignPair (' ' :: cs)) : HasSignPair cs := by
  have hblank (o : Operator) : o.char ∉ [' '] := by
    cases o <;> decide
  exact hasSignPair_of_run hblank h

/-- What follows is no blank and a sign. -/
def StartsUnsigned (cs : List Char) : Prop := ∀ o : Operator, ¬ [' ', o.char] <+: cs

theorem startsUnsigned_append {run : List Char} (h : ' ' ∉ run) {rest : List Char}
    (hrest : StartsUnsigned rest) : StartsUnsigned (run ++ rest) := by
  intro o ho
  cases run with
  | nil => exact hrest o ho
  | cons c run => exact h ((List.cons_prefix_cons.1 ho).1 ▸ List.mem_cons_self)

/-- A number may have signs, but no blanks. -/
theorem hasSignPair_of_append {run rest : List Char} (h : ' ' ∉ run)
    (hrest : StartsUnsigned rest) (hpair : HasSignPair (run ++ rest)) : HasSignPair rest := by
  induction run with
  | nil => exact hpair
  | cons c run ih =>
    have hrun : ' ' ∉ run := fun hmem => h (List.mem_cons_of_mem _ hmem)
    rcases hasSignPair_cons.1 hpair with ⟨_, o, _, ho⟩ | hpair
    · exact absurd ho (startsUnsigned_append hrun hrest o)
    · exact ih hrun hpair

/-- An exponent ends in a digit, so an operator may follow. -/
theorem hasSignPair_of_intChars {e : Int} {rest : List Char}
    (h : HasSignPair (intChars e ++ rest)) : HasSignPair rest := by
  have digits (o : Operator) : o.char ∉ digitChars e.natAbs := fun hmem =>
    Term.not_isDigit_operator o (isDigit_of_mem_digitChars hmem)
  unfold intChars at h
  split at h
  · refine hasSignPair_of_run digits ((hasSignPair_cons.1 h).resolve_left ?_)
    rintro ⟨_, _, _, ho⟩
    obtain ⟨c, cs, hcons⟩ := List.exists_cons_of_ne_nil (digitChars_ne_nil e.natAbs)
    have hdigit : c.isDigit := isDigit_of_mem_digitChars (hcons ▸ List.mem_cons_self)
    rw [hcons] at ho
    rw [← (List.cons_prefix_cons.1 ho).1] at hdigit
    contradiction
  · exact hasSignPair_of_run digits h

namespace FormPiece

variable {q : FormPiece} {t : Term}

theorem startsUnsigned_power (cs : List Char) : StartsUnsigned (" * X^".toList ++ cs) := by
  intro o ho
  have hstar : o.char = '*' := (List.cons_prefix_cons.1 (List.cons_prefix_cons.1 ho).2).1
  cases o <;> contradiction

theorem startsUnsigned_chars (h : ' ' ∉ q.number) (rest : List Char) :
    StartsUnsigned (q.chars ++ rest) := by
  rw [chars, List.append_assoc, List.append_assoc]
  exact startsUnsigned_append h (startsUnsigned_power _)

theorem hasSignPair_of_chars (h : ' ' ∉ q.number) {rest : List Char}
    (hpair : HasSignPair (q.chars ++ rest)) : HasSignPair rest := by
  rw [chars, List.append_assoc, List.append_assoc] at hpair
  have power (o : Operator) : o.char ∉ [' ', '*', ' ', 'X', '^'] := by
    cases o <;> decide
  exact hasSignPair_of_intChars
    (hasSignPair_of_run power (hasSignPair_of_append h (startsUnsigned_power _) hpair))

theorem not_hasSignPair_later {qs : List FormPiece} {ts : List Term}
    (h : List.Forall₂ Represents qs ts) : ¬ HasSignPair (qs.flatMap laterChars) := by
  induction h with
  | nil => exact fun ⟨_, _, h⟩ => by simp at h
  | @cons q t qs ts hq _ ih =>
    rw [List.flatMap_cons, laterChars, List.cons_append, List.cons_append, List.cons_append]
    intro hpair
    refine ih (hasSignPair_of_chars hq.no_blank (hasSignPair_of_blank ?_))
    refine (hasSignPair_cons.1 (hasSignPair_of_blank hpair)).resolve_left ?_
    rintro ⟨_, o, _, ho⟩
    have hhead := (List.cons_prefix_cons.1 ho).2
    -- The number has no sign, and if there were none then a blank would follow.
    cases hnumber : q.number with
    | nil =>
      rw [chars, hnumber] at hhead
      have hblank : o.char = ' ' := (List.cons_prefix_cons.1 hhead).1
      cases o <;> contradiction
    | cons c cs =>
      rw [chars, hnumber] at hhead
      refine hq.no_sign o ?_
      rw [hnumber, (List.cons_prefix_cons.1 hhead).1]
      rfl

theorem not_hasSignPair_first {qs : List FormPiece} {ts : List Term} (hq : q.Represents t)
    (h : List.Forall₂ Represents qs ts) :
    ¬ HasSignPair (q.firstChars ++ qs.flatMap laterChars) := by
  intro hpair
  refine not_hasSignPair_later h (hasSignPair_of_chars hq.no_blank ?_)
  rw [firstChars, List.append_assoc] at hpair
  refine hasSignPair_of_append ?_ (startsUnsigned_chars hq.no_blank _) hpair
  split <;> decide

theorem head?_firstChars (h : q.Represents t) (rest : List Char) :
    (q.firstChars ++ rest).head? ≠ some '+' := by
  rw [firstChars]
  split
  · exact fun hhead => by cases hhead
  · cases hnumber : q.number with
    | nil =>
      rw [chars, hnumber]
      exact fun hhead => by cases hhead
    | cons c cs =>
      rw [chars, hnumber]
      intro hhead
      exact h.no_sign .plus (hnumber ▸ hhead)

end FormPiece

/-! ## Reduced forms -/

namespace Polynomial

theorem not_hasSignPair_form (p : Polynomial) : ¬ HasSignPair p.form := by
  cases hterms : p.terms with
  | nil =>
    rw [form, hterms]
    rintro ⟨_, _, h⟩
    simpa using h.length_le
  | cons t ts =>
    rw [form_eq_pieces hterms]
    exact FormPiece.not_hasSignPair_first t.represents_piece
      (List.forall₂_map_left_iff.2 (List.forall₂_same.2 fun u _ => u.represents_piece))

theorem form_eq_zero_iff (p : Polynomial) : p.form = ['0'] ↔ p.terms = [] := by
  constructor
  · intro h
    cases hterms : p.terms with
    | nil => rfl
    | cons t ts =>
      have hstar : '*' ∈ p.form := by
        rw [form_eq_pieces hterms]
        simp [FormPiece.firstChars, FormPiece.chars]
      rw [h] at hstar
      contradiction
  · intro h
    rw [form, h]

theorem head?_form (p : Polynomial) : p.form.head? ≠ some '+' := by
  cases hterms : p.terms with
  | nil =>
    rw [form, hterms]
    decide
  | cons t ts =>
    rw [form_eq_pieces hterms]
    exact FormPiece.head?_firstChars t.represents_piece _

theorem cutAtOperators_form (p : Polynomial) :
    cutAtOperators p.form = FormPiece.cut (p.terms.map Term.piece) := by
  cases hterms : p.terms with
  | nil =>
    rw [form, hterms]
    rfl
  | cons t ts =>
    rw [form_eq_pieces hterms, List.map_cons]
    refine FormPiece.cutAtOperators_first fun r hr => ?_
    rw [← List.map_cons] at hr
    obtain ⟨u, -, rfl⟩ := List.mem_map.1 hr
    exact u.represents_piece.no_blank

/-- A form is `0` only for the polynomial without terms, has no plus at its front, and nowhere two
signs with a blank between them. It is cut into one piece for each term, in ascending order: a
number that reads as the magnitude of the coefficient and the exponent of `X`, with a minus in front
exactly if the coefficient is below zero. -/
theorem pieces_of_form (p : Polynomial) :
    (p.form = ['0'] ↔ p.terms = []) ∧ p.form.head? ≠ some '+' ∧
    (∀ o o' : Operator, ¬ [o.char, ' ', o'.char] <:+: p.form) ∧
    ∃ qs : List FormPiece, List.Forall₂ FormPiece.Represents qs p.terms ∧
      qs.Pairwise (fun q r => q.exponent < r.exponent) ∧
      cutAtOperators p.form = FormPiece.cut qs := by
  refine ⟨p.form_eq_zero_iff, p.head?_form, fun o o' h => p.not_hasSignPair_form ⟨o, o', h⟩,
    p.terms.map Term.piece, ?_, ?_, p.cutAtOperators_form⟩
  · exact List.forall₂_map_left_iff.2 (List.forall₂_same.2 fun t _ => t.represents_piece)
  · rw [List.pairwise_map]
    exact p.ascending

end Polynomial

end PolySolve
