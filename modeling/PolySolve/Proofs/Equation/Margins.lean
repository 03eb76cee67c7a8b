import PolySolve.Proofs.Equation.Verdict
import PolySolve.Solution.Report

/-!
# Blanks around an equation

Blanks belong to the terms that they stand before or after, so a side without
the blanks at its start or at its end is a side with the same terms. Without
the blanks around it an equation is read as the same polynomial, or is refused
for an error of the same class.

* `Agrees`: ways to write a term that differ in blanks only;
* `exists_trimStart`, `exists_trimEnd`: sides with other blanks at their start or end;
* `Alike`: sides that are written with the same terms;
* `sameReading_trim`, `sameReport_trim`: whole equations.
-/

namespace PolySolve

open Text

namespace BlankRun

/-- The blanks at the end of a text. -/
def ending (cs : List Char) : BlankRun where
  chars := (cs.reverse.takeWhile isBlank).reverse
  blank c hc := List.all_eq_true.1 List.all_takeWhile c (List.mem_reverse.1 hc)

theorem append_ending (cs : List Char) : trimEnd cs ++ (ending cs).chars = cs := by
  rw [trimEnd, ending, ← List.reverse_append, List.takeWhile_append_dropWhile, List.reverse_reverse]

/-- Digits stay when the blanks after them are taken away. -/
theorem trimEnd_digits_append (d : DigitRun) (b : BlankRun) :
    trimEnd (d.chars ++ b.chars) = d.chars := by
  have hblank : ∀ c ∈ b.chars.reverse, isBlank c := fun c hc => b.blank c (List.mem_reverse.1 hc)
  have hdigit : Stops isBlank d.chars.reverse := fun c hc =>
    isBlank_of_isDigit (d.digit c (List.mem_reverse.1 (List.mem_of_mem_head? hc)))
  rw [trimEnd, List.reverse_append, (dropWhile_append_of_stops hblank hdigit).1,
    List.reverse_reverse]

end BlankRun

/-! ## Terms that differ in blanks -/

namespace WrittenTerm

/-- Two ways to write a term that differ in blanks only. -/
structure Agrees (w v : WrittenTerm) : Prop where
  operator : v.operator = w.operator
  signed : v.signed = w.signed
  factor : v.factor = w.factor
  exponentNegative : v.exponentNegative = w.exponentNegative
  exponentDigits : v.exponentDigits = w.exponentDigits

namespace Agrees

variable {w v : WrittenTerm}

theorem refl (w : WrittenTerm) : w.Agrees w := ⟨rfl, rfl, rfl, rfl, rfl⟩

theorem outOfRange (h : w.Agrees v) : v.OutOfRange ↔ w.OutOfRange := by
  unfold OutOfRange Magnitude exponentValue
  rw [h.factor, h.exponentNegative, h.exponentDigits]

theorem denotes (h : w.Agrees v) {t : Term} (ht : w.Denotes t) : v.Denotes t := by
  obtain ⟨hexponent, x, hx, hcoefficient⟩ := ht
  unfold Magnitude at hx
  unfold exponentValue at hexponent
  refine ⟨?_, x, ?_, ?_⟩
  · rw [hexponent, exponentValue, h.exponentNegative, h.exponentDigits]
  · rw [Magnitude, h.factor]
    exact hx
  · rw [hcoefficient, minuses, minuses, h.operator, h.signed]

end Agrees

/-- The blanks before a term may be replaced by others. Without an operator, and without a sign, the
blanks after these are before the term too. -/
theorem exists_margin (w : WrittenTerm) (b : BlankRun) :
    ∃ v back, w.Agrees v ∧ v.chars = b.chars ++ back ∧
      ∀ rest, trimStart (w.chars ++ rest) = back ++ rest := by
  cases ho : w.operator with
  | some o =>
    refine ⟨{ w with margin := b }, w.charsFromOperator, ⟨rfl, rfl, rfl, rfl, rfl⟩, rfl,
      fun rest => ?_⟩
    exact w.trimStart_chars_append (by rw [ho]; rfl) rest
  | none =>
    have hchars (rest : List Char) : trimStart (w.chars ++ rest) =
        trimStart (minusChars w.signed ++ (w.afterSign.chars ++ (w.body ++ rest))) := by
      unfold chars charsFromOperator
      rw [ho]
      simp only [operatorChars, List.nil_append, List.append_assoc, w.margin.trimStart_append,
        w.afterOperator.trimStart_append]
    cases hs : w.signed with
    | true =>
      refine ⟨{ w with margin := b, afterOperator := .empty },
        '-' :: (w.afterSign.chars ++ w.body), ⟨rfl, rfl, rfl, rfl, rfl⟩, ?_, fun rest => ?_⟩
      · unfold chars charsFromOperator
        rw [ho, hs]
        rfl
      · rw [hchars, hs, List.cons_append, List.append_assoc]
        exact (dropWhile_of_stops (stops_cons (by decide) _)).1
    | false =>
      -- All three runs of blanks stand next to each other in front of the number.
      refine ⟨{ w with margin := b, afterOperator := .empty, afterSign := .empty }, w.body,
        ⟨rfl, rfl, rfl, rfl, rfl⟩, ?_, fun rest => ?_⟩
      · unfold chars charsFromOperator
        rw [ho, hs]
        rfl
      · rw [hchars, hs]
        exact w.afterSign.trimStart_append_of_stops (w.stops_body rest)

/-- The blanks after a term may be replaced by others. -/
theorem trimEnd_chars (w : WrittenTerm) (b : BlankRun) :
    ({ w with trailing := b } : WrittenTerm).chars = trimEnd w.chars ++ b.chars := by
  obtain ⟨front, hfront⟩ : ∃ front : List Char, ∀ c : BlankRun,
      ({ w with trailing := c } : WrittenTerm).chars =
        front ++ (w.exponentDigits.chars ++ c.chars) := by
    refine ⟨w.margin.chars ++ (operatorChars w.operator ++ (w.afterOperator.chars ++
      (minusChars w.signed ++ (w.afterSign.chars ++ (factorChars w.factor ++
      (powerChars w.capital w.afterLetter w.afterCaret ++ minusChars w.exponentNegative)))))),
      fun c => ?_⟩
    simp only [chars, charsFromOperator, body, exponentChars, List.append_assoc]
  obtain ⟨c, cs, hc, hdigit⟩ := w.exponentDigits.exists_cons
  have hmem : c ∈ w.exponentDigits.chars ++ w.trailing.chars := by
    rw [hc]
    exact List.mem_cons_self
  have hw : w.chars = front ++ (w.exponentDigits.chars ++ w.trailing.chars) := hfront w.trailing
  rw [hw, hfront, trimEnd_append_of_mem hmem (isBlank_of_isDigit hdigit),
    BlankRun.trimEnd_digits_append, List.append_assoc]

end WrittenTerm

/-! ## Sides that differ in blanks -/

namespace WrittenSide

/-- A side with other blanks at its start. -/
theorem exists_trimStart (s : WrittenSide) (b : BlankRun) :
    ∃ s' : WrittenSide, List.Forall₂ WrittenTerm.Agrees s.terms s'.terms ∧
      s'.chars = b.chars ++ trimStart s.chars := by
  obtain ⟨v, back, hagrees, hv, htrim⟩ := s.first.exists_margin b
  refine ⟨⟨v, s.later, s.introduced⟩, .cons hagrees (List.forall₂_same.2 fun w _ => .refl w), ?_⟩
  show v.chars ++ s.later.flatMap WrittenTerm.chars =
    b.chars ++ trimStart (s.first.chars ++ s.later.flatMap WrittenTerm.chars)
  rw [hv, htrim, List.append_assoc]

theorem exists_trimEnd_of_terms (b : BlankRun) (w : WrittenTerm) (ws : List WrittenTerm)
    (h : ∀ v ∈ ws, v.operator.isSome) :
    ∃ v vs, List.Forall₂ WrittenTerm.Agrees (w :: ws) (v :: vs) ∧
      (∀ u ∈ vs, u.operator.isSome) ∧
      (v :: vs).flatMap WrittenTerm.chars =
        trimEnd ((w :: ws).flatMap WrittenTerm.chars) ++ b.chars := by
  induction ws generalizing w with
  | nil =>
    refine ⟨{ w with trailing := b }, [], .cons ⟨rfl, rfl, rfl, rfl, rfl⟩ .nil, by simp, ?_⟩
    rw [List.flatMap_singleton, List.flatMap_singleton]
    exact w.trimEnd_chars b
  | cons u us ih =>
    obtain ⟨v, vs, hagrees, hvs, hchars⟩ := ih u fun v hv => h v (List.mem_cons_of_mem _ hv)
    have hletter : letterChar u.capital ∈ (u :: us).flatMap WrittenTerm.chars :=
      (WrittenSide.mk u us fun v hv => h v (List.mem_cons_of_mem _ hv)).letterChar_mem
    -- The side after the first term stays one whose first term has an operator.
    have hv : v.operator.isSome := by
      cases hagrees with
      | cons huv _ =>
        rw [huv.operator]
        exact h u List.mem_cons_self
    refine ⟨w, v :: vs, .cons (.refl w) hagrees, List.forall_mem_cons.2 ⟨hv, hvs⟩, ?_⟩
    rw [List.flatMap_cons, hchars, List.flatMap_cons (x := w),
      trimEnd_append_of_mem hletter (isBlank_letterChar _), List.append_assoc]

/-- A side with other blanks at its end. -/
theorem exists_trimEnd (s : WrittenSide) (b : BlankRun) :
    ∃ s' : WrittenSide, List.Forall₂ WrittenTerm.Agrees s.terms s'.terms ∧
      s'.chars = trimEnd s.chars ++ b.chars := by
  obtain ⟨v, vs, hagrees, hvs, hchars⟩ := exists_trimEnd_of_terms b s.first s.later s.introduced
  exact ⟨⟨v, vs, hvs⟩, hagrees, hchars⟩

end WrittenSide

theorem WrittenTerm.exists_agrees_of_mem {ws vs : List WrittenTerm} {v : WrittenTerm}
    (h : List.Forall₂ WrittenTerm.Agrees ws vs) (hv : v ∈ vs) : ∃ w ∈ ws, w.Agrees v := by
  induction h with
  | nil => contradiction
  | cons hagrees _ ih =>
    rcases List.mem_cons.1 hv with rfl | hv
    · exact ⟨_, List.mem_cons_self, hagrees⟩
    · obtain ⟨w, hw, hwv⟩ := ih hv
      exact ⟨w, List.mem_cons_of_mem _ hw, hwv⟩

theorem WrittenTerm.denotes_of_agrees {ws vs : List WrittenTerm} {ts : List Term}
    (h : List.Forall₂ WrittenTerm.Agrees ws vs) (hts : List.Forall₂ WrittenTerm.Denotes ws ts) :
    List.Forall₂ WrittenTerm.Denotes vs ts := by
  induction h generalizing ts with
  | nil => exact hts
  | cons hagrees _ ih =>
    cases hts with
    | cons ht hts => exact .cons (hagrees.denotes ht) (ih hts)

/-! ## Classes of errors -/

inductive ErrorClass where
  | separator
  | emptySide
  | termFormat
  | numeric
  deriving DecidableEq

namespace EquationError

def errorClass : EquationError → ErrorClass
  | separator _ => .separator
  | emptySide _ => .emptySide
  | termFormat _ => .termFormat
  | termRange _ | coefficientOverflow _ | discriminantOverflow _ | rootOverflow _ => .numeric

/-- An error of each class. -/
def ofClass : ErrorClass → EquationError
  | .separator => .separator []
  | .emptySide => .emptySide []
  | .termFormat => .termFormat []
  | .numeric => .termRange []

theorem message_ofClass (e : EquationError) : (ofClass e.errorClass).message = e.message := by
  cases e <;> rfl

/-- The class of an error tells its message. -/
theorem message_eq {e f : EquationError} (h : f.errorClass = e.errorClass) :
    f.message = e.message := by
  rw [← message_ofClass f, h, message_ofClass e]

end EquationError

namespace Equation

/-! ## Sides with the same terms -/

/-- Two sides have the same trimmed text, and each can be written with the terms of the other. -/
structure Alike (side other : List Char) : Prop where
  trim_eq : trim other = trim side
  written : ∀ s : WrittenSide, s.chars = side →
    ∃ t : WrittenSide, t.chars = other ∧ List.Forall₂ WrittenTerm.Agrees s.terms t.terms
  writtenBack : ∀ t : WrittenSide, t.chars = other →
    ∃ s : WrittenSide, s.chars = side ∧ List.Forall₂ WrittenTerm.Agrees t.terms s.terms

theorem alike_trimStart (side : List Char) : Alike side (trimStart side) where
  trim_eq := by rw [trim, trimStart_trimStart, trim]
  written s hs := by
    obtain ⟨t, hagrees, ht⟩ := s.exists_trimStart .empty
    rw [hs] at ht
    exact ⟨t, ht, hagrees⟩
  writtenBack t ht := by
    obtain ⟨s, hagrees, hs⟩ := t.exists_trimStart (.leading side)
    rw [ht, trimStart_trimStart, BlankRun.leading_append] at hs
    exact ⟨s, hs, hagrees⟩

theorem alike_trimEnd (side : List Char) : Alike side (trimEnd side) where
  trim_eq := by
    conv => rhs; rw [← BlankRun.append_ending side]
    rw [BlankRun.trim_append_chars]
  written s hs := by
    obtain ⟨t, hagrees, ht⟩ := s.exists_trimEnd .empty
    rw [hs] at ht
    exact ⟨t, by rw [ht]; exact List.append_nil _, hagrees⟩
  writtenBack t ht := by
    obtain ⟨s, hagrees, hs⟩ := t.exists_trimEnd (.ending side)
    rw [ht, trimEnd_trimEnd, BlankRun.append_ending] at hs
    exact ⟨s, hs, hagrees⟩

namespace Alike

variable {side other : List Char}

theorem symm (h : Alike side other) : Alike other side :=
  ⟨h.trim_eq.symm, h.writtenBack, h.written⟩

theorem grammatical_iff (h : Alike side other) : Grammatical other ↔ Grammatical side :=
  ⟨fun ⟨t, ht⟩ => (h.writtenBack t ht).imp fun _ hs => hs.1,
    fun ⟨s, hs⟩ => (h.written s hs).imp fun _ ht => ht.1⟩

theorem blank_iff (h : Alike side other) :
    (∀ c ∈ other, isBlank c) ↔ ∀ c ∈ side, isBlank c := by
  rw [← trim_eq_nil_iff, ← trim_eq_nil_iff, h.trim_eq]

theorem wellFormed (h : Alike side other) (hs : WellFormed side) : WellFormed other :=
  hs.imp h.trim_eq.trans h.grammatical_iff.2

theorem formFault (h : Alike side other) {e : EquationError} (he : FormFault side e) :
    ∃ f, FormFault other f ∧ f.errorClass = e.errorClass := by
  have hnot : ¬ WellFormed other := fun hw => hw.elim
    (fun hz => he.notZero (h.trim_eq.symm.trans hz))
    (fun hg => he.notGrammatical (h.grammatical_iff.1 hg))
  obtain ⟨f, hf⟩ := (wellFormed_or_formFault other).resolve_left hnot
  refine ⟨f, hf, ?_⟩
  rcases he.kind with ⟨hblank, rfl⟩ | ⟨hblank, _, rfl⟩ <;>
    rcases hf.kind with ⟨hblank', rfl⟩ | ⟨hblank', _, rfl⟩
  · rfl
  · exact absurd (h.blank_iff.2 hblank) hblank'
  · exact absurd (h.blank_iff.1 hblank') hblank
  · rfl

/-- Sides that can be read are read as the same terms. -/
theorem readable (h : Alike side other) (hs : Readable side) :
    Readable other ∧ sideTerms other = sideTerms side := by
  rcases hs with hz | ⟨s, hs, hrange⟩
  · have hz' := h.trim_eq.trans hz
    exact ⟨Or.inl hz', by rw [sideTerms_of_zeroSide hz, sideTerms_of_zeroSide hz']⟩
  · obtain ⟨t, ht, hagrees⟩ := h.written s hs
    have hrange' : ∀ v ∈ t.terms, ¬ v.OutOfRange := fun v hv => by
      obtain ⟨w, hw, hwv⟩ := WrittenTerm.exists_agrees_of_mem hagrees hv
      rw [hwv.outOfRange]
      exact hrange w hw
    refine ⟨Or.inr ⟨t, ht, hrange'⟩, ?_⟩
    obtain ⟨xs, hxs, hdenotes⟩ := sideTerms_chars s hrange
    obtain ⟨ys, hys, hdenotes'⟩ := sideTerms_chars t hrange'
    rw [← hs, ← ht, hxs, hys, eq_of_denotes (WrittenTerm.denotes_of_agrees hagrees hdenotes) hdenotes']

theorem firstOutOfRange (h : Alike side other) {w : WrittenTerm} (hw : FirstOutOfRange side w) :
    ∃ v, FirstOutOfRange other v := by
  -- If the other side could be read, so could this one.
  refine (readable_or_firstOutOfRange (h.wellFormed hw.wellFormed)).resolve_left fun hr => ?_
  obtain ⟨xs, hxs, -⟩ := sideTerms_of_readable (h.symm.readable hr).1
  rw [sideTerms_of_firstOutOfRange hw] at hxs
  contradiction

end Alike

/-! ## Equations without the blanks around them -/

/-- What two texts are read as: the same polynomial, or errors of one class. -/
inductive SameReading : Except EquationError Polynomial → Except EquationError Polynomial → Prop
  | read (p : Polynomial) : SameReading (.ok p) (.ok p)
  | refused {e f : EquationError} : f.errorClass = e.errorClass →
      SameReading (.error e) (.error f)

/-- The cases are split as for a verdict: what one text is refused for, the other is too. -/
theorem sameReading_of_alike {text text' left left' right right' : List Char}
    (hs : Sides text left right) (hs' : Sides text' left' right') (hleft : Alike left left')
    (hright : Alike right right') : SameReading (polynomial text) (polynomial text') := by
  rcases wellFormed_or_formFault left with hl | ⟨e, hl⟩
  case inr =>
    obtain ⟨f, hl', hclass⟩ := hleft.formFault hl
    rw [(Verdict.leftForm hs hl).polynomial_eq, (Verdict.leftForm hs' hl').polynomial_eq]
    exact .refused hclass
  rcases wellFormed_or_formFault right with hr | ⟨e, hr⟩
  case inr =>
    obtain ⟨f, hr', hclass⟩ := hright.formFault hr
    rw [(Verdict.rightForm hs hl hr).polynomial_eq,
      (Verdict.rightForm hs' (hleft.wellFormed hl) hr').polynomial_eq]
    exact .refused hclass
  rcases readable_or_firstOutOfRange hl with hl | ⟨w, hl⟩
  case inr =>
    obtain ⟨v, hl'⟩ := hleft.firstOutOfRange hl
    rw [(Verdict.leftRange hs hr hl).polynomial_eq,
      (Verdict.leftRange hs' (hright.wellFormed hr) hl').polynomial_eq]
    exact .refused rfl
  obtain ⟨hl', hterms⟩ := hleft.readable hl
  rcases readable_or_firstOutOfRange hr with hr | ⟨w, hr⟩
  case inr =>
    obtain ⟨v, hr'⟩ := hright.firstOutOfRange hr
    rw [(Verdict.rightRange hs hl hr).polynomial_eq, (Verdict.rightRange hs' hl' hr').polynomial_eq]
    exact .refused rfl
  obtain ⟨hr', hterms'⟩ := hright.readable hr
  obtain ⟨ts, hts, -⟩ := terms_of_readable hs hl hr
  have hts' : terms text' = .ok ts := by
    rw [terms_of_sides hs', hterms, hterms', ← terms_of_sides hs, hts]
  rw [(Verdict.read hs hl hr hts).polynomial_eq, (Verdict.read hs' hl' hr' hts').polynomial_eq]
  exact .read _

theorem Sides.trim {text left right : List Char} (h : Sides text left right) :
    Sides (Text.trim text) (trimStart left) (trimEnd right) := by
  obtain ⟨rfl, hl, hr⟩ := h
  refine ⟨trim_append_cons (by decide) left right, fun hm => hl ?_, fun hm => hr ?_⟩
  · exact (List.dropWhile_sublist _).subset hm
  · exact List.mem_reverse.1 ((List.dropWhile_sublist _).subset (List.mem_reverse.1 hm))

/-- The blanks around an equation do not matter to what it is read as. -/
theorem sameReading_trim (text : List Char) :
    SameReading (polynomial text) (polynomial (trim text)) := by
  rcases sides_or_count_ne text with hc | ⟨left, right, hs⟩
  · have hc' : (trim text).count '=' ≠ 1 := by
      rw [count_trim (by decide)]
      exact hc
    rw [(Verdict.separator hc).polynomial_eq, (Verdict.separator hc').polynomial_eq]
    exact .refused rfl
  · exact sameReading_of_alike hs hs.trim (alike_trimStart left) (alike_trimEnd right)

end Equation

namespace Report

/-- What two equations come to: reports that differ in the equation that they name only, errors of
one class, or the same fault. -/
inductive SameReport : Except Fault Report → Except Fault Report → Prop
  | solved (r : Report) (equation : List Char) : SameReport (.ok r) (.ok { r with equation })
  | rejected {e f : EquationError} : f.errorClass = e.errorClass →
      SameReport (.error (.equation e)) (.error (.equation f))
  | failed {f : Fault} : (∀ e, f ≠ .equation e) → SameReport (.error f) (.error f)

theorem sameReport_ofPolynomial (p : Polynomial) (equation equation' : List Char) :
    SameReport (ofPolynomial equation p) (ofPolynomial equation' p) := by
  have hfault (f : Fault) : SameReport (.error f) (.error f) := by
    cases f with
    | equation e => exact .rejected rfl
    | _ => exact .failed fun _ => Fault.noConfusion
  unfold ofPolynomial
  cases p.solve with
  | error f => exact hfault f
  | ok outcome =>
    cases h : outcome.lines p with
    | error f =>
      simp only [bind, Except.bind, h]
      exact hfault f
    | ok lines =>
      simp only [bind, Except.bind, h]
      exact .solved ⟨equation, p, outcome, lines⟩ equation'

/-- The blanks around an equation do not matter to what it comes to. -/
theorem sameReport_trim (text : List Char) :
    SameReport (ofEquation text) (ofEquation (trim text)) := by
  have h := Equation.sameReading_trim text
  unfold ofEquation
  generalize Equation.polynomial text = x at h
  generalize Equation.polynomial (trim text) = y at h
  cases h with
  | read p => exact sameReport_ofPolynomial p text (trim text)
  | refused h => exact .rejected h

end Report

end PolySolve
