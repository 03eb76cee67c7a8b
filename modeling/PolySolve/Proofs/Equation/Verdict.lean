import PolySolve.Proofs.Equation.Meaning

/-!
# What becomes of an equation

The form of both sides is checked before any term is read, so a fault in the
form of one side comes before a term out of range in the other. `Verdict` says
for every text what reading it as a polynomial comes to, and `polynomial` agrees:

* `wellFormed_or_formFault`, `readable_or_firstOutOfRange`: what a side can be;
* `checkSide_of_wellFormed` and after: what the two passes make of each;
* `exists_verdict`, `Verdict.polynomial_eq`: each text has one verdict, and it
  is the outcome.
-/

namespace PolySolve

open Text

/-- The errors about numbers: too large, or an exponent that is no good. -/
def EquationError.isNumeric : EquationError → Bool
  | termRange _ | coefficientOverflow _ | discriminantOverflow _ | rootOverflow _ => true
  | separator _ | emptySide _ | termFormat _ => false

namespace Equation

/-! ## Sides -/

/-- A side is just `0` or has the form of a sum of terms. -/
def WellFormed (side : List Char) : Prop := trim side = ['0'] ∨ Grammatical side

/-- A side is not well formed, and the error that tells it. -/
structure FormFault (side : List Char) (e : EquationError) : Prop where
  notZero : trim side ≠ ['0']
  notGrammatical : ¬ Grammatical side
  scanned : Token.tokens side = .error e
  kind : ((∀ c ∈ side, isBlank c) ∧ e = .emptySide side) ∨
    ((¬ ∀ c ∈ side, isBlank c) ∧ ∃ rest, e = .termFormat rest)

/-- A side is well formed and no term of it is out of range. -/
def Readable (side : List Char) : Prop :=
  trim side = ['0'] ∨ ∃ s : WrittenSide, s.chars = side ∧ ∀ w ∈ s.terms, ¬ w.OutOfRange

/-- A term is the first of its side that is out of range. -/
def FirstOutOfRange (side : List Char) (w : WrittenTerm) : Prop :=
  ∃ (s : WrittenSide) (before after : List WrittenTerm), s.chars = side ∧
    s.terms = before ++ w :: after ∧ (∀ v ∈ before, ¬ v.OutOfRange) ∧ w.OutOfRange

/-- The number of terms that the check of a side matches; a side that is just `0` counts one. -/
def Matched (side : List Char) (n : Nat) : Prop :=
  (trim side = ['0'] ∧ n = 1) ∨
    (trim side ≠ ['0'] ∧ ∃ ts, Token.tokens side = .ok ts ∧ n = ts.length)

theorem wellFormed_or_formFault (side : List Char) : WellFormed side ∨ ∃ e, FormFault side e := by
  by_cases hz : trim side = ['0']
  · exact Or.inl (Or.inl hz)
  by_cases hg : Grammatical side
  · exact Or.inl (Or.inr hg)
  cases h : Token.tokens side with
  | ok ts => exact absurd (Token.grammatical_of_tokens h) hg
  | error e => exact Or.inr ⟨e, hz, hg, h, Token.tokens_eq_error h⟩

theorem readable_or_firstOutOfRange {side : List Char} (h : WellFormed side) :
    Readable side ∨ ∃ w, FirstOutOfRange side w := by
  rcases h with hz | ⟨s, rfl⟩
  · exact Or.inl (Or.inl hz)
  cases hf : s.terms.find? (fun w => decide w.OutOfRange) with
  | none =>
    refine Or.inl (Or.inr ⟨s, rfl, fun w hw ho => ?_⟩)
    exact List.find?_eq_none.1 hf w hw (decide_eq_true ho)
  | some w =>
    obtain ⟨ho, before, after, hs, hbefore⟩ := List.find?_eq_some_iff_append.1 hf
    refine Or.inr ⟨w, s, before, after, rfl, hs, fun v hv => ?_, of_decide_eq_true ho⟩
    simpa using hbefore v hv

theorem Readable.wellFormed {side : List Char} (h : Readable side) : WellFormed side :=
  h.imp_right fun ⟨s, hs, _⟩ => ⟨s, hs⟩

theorem FirstOutOfRange.wellFormed {side : List Char} {w : WrittenTerm}
    (h : FirstOutOfRange side w) : WellFormed side := by
  obtain ⟨s, _, _, hs, _⟩ := h
  exact Or.inr ⟨s, hs⟩

theorem FormFault.isNumeric {side : List Char} {e : EquationError} (h : FormFault side e) :
    e.isNumeric = false := by
  rcases h.kind with ⟨-, rfl⟩ | ⟨-, rest, rfl⟩ <;> rfl

theorem FormFault.ne_separator {side : List Char} {e : EquationError} (h : FormFault side e)
    (text : List Char) : e ≠ .separator text := by
  rcases h.kind with ⟨-, rfl⟩ | ⟨-, rest, rfl⟩ <;> exact EquationError.noConfusion

theorem isZeroSide_of_ne {side : List Char} (h : trim side ≠ ['0']) : isZeroSide side = false :=
  beq_eq_false_iff_ne.2 h

theorem checkSide_of_wellFormed {side : List Char} (h : WellFormed side) :
    checkSide side = .ok () := by
  rcases h with hz | ⟨s, rfl⟩
  · exact if_pos (beq_iff_eq.2 hz)
  · obtain ⟨ts, hts, -⟩ := Token.tokens_chars s
    rw [checkSide, isZeroSide_chars, hts]
    rfl

theorem checkSide_of_formFault {side : List Char} {e : EquationError} (h : FormFault side e) :
    checkSide side = .error e := by
  rw [checkSide, isZeroSide_of_ne h.notZero, h.scanned]
  rfl

theorem sideTerms_of_formFault {side : List Char} {e : EquationError} (h : FormFault side e) :
    sideTerms side = .error e := by
  rw [sideTerms, isZeroSide_of_ne h.notZero, h.scanned]
  rfl

theorem sideTerms_of_readable {side : List Char} (h : Readable side) :
    ∃ xs, sideTerms side = .ok xs ∧ Matched side xs.length := by
  rcases h with hz | ⟨s, rfl, hs⟩
  · exact ⟨_, sideTerms_of_zeroSide hz, Or.inl ⟨hz, rfl⟩⟩
  · obtain ⟨xs, hxs, hd⟩ := sideTerms_chars s hs
    obtain ⟨ts, hts, hr⟩ := Token.tokens_chars s
    refine ⟨xs, hxs, Or.inr ⟨beq_eq_false_iff_ne.1 (isZeroSide_chars s), ts, hts, ?_⟩⟩
    rw [← hd.length_eq, hr.length_eq]

/-- What holds of each term that a written term denotes holds of all terms of a side. -/
theorem forall_of_sideTerms {P : Term → Prop} {side : List Char} {xs : List Term}
    (h : Readable side) (hxs : sideTerms side = .ok xs) (hzero : P ⟨.zero, 0⟩)
    (hterm : ∀ (w : WrittenTerm) (t : Term), w.Denotes t → ¬ w.OutOfRange → P t) :
    ∀ t ∈ xs, P t := by
  rcases h with hz | ⟨s, rfl, hs⟩
  · rw [sideTerms_of_zeroSide hz] at hxs
    obtain rfl := Except.ok.inj hxs
    exact List.forall_mem_singleton.2 hzero
  · obtain ⟨ys, hys, hd⟩ := sideTerms_chars s hs
    obtain rfl : ys = xs := Except.ok.inj (hys.symm.trans hxs)
    clear hys hxs
    generalize s.terms = ws at hs hd
    induction hd with
    | nil => exact List.forall_mem_nil _
    | cons hd _ ih =>
      obtain ⟨hw, hws⟩ := List.forall_mem_cons.1 hs
      exact List.forall_mem_cons.2 ⟨hterm _ _ hd hw, ih hws⟩

theorem sideTerms_of_firstOutOfRange {side : List Char} {w : WrittenTerm}
    (h : FirstOutOfRange side w) : sideTerms side = .error (.termRange (trim w.chars)) := by
  obtain ⟨s, before, after, rfl, hs, hbefore, hw⟩ := h
  exact sideTerms_chars_eq_error s hs hbefore hw

/-! ## Equations -/

/-- A text is a left side, its only equals sign and a right side. -/
def Sides (text left right : List Char) : Prop :=
  text = left ++ '=' :: right ∧ '=' ∉ left ∧ '=' ∉ right

theorem sides_or_count_ne (text : List Char) :
    text.count '=' ≠ 1 ∨ ∃ left right, Sides text left right := by
  by_cases h : text.count '=' = 1
  · exact Or.inr ⟨_, _, parts_eq_ok_iff.1 (if_pos h)⟩
  · exact Or.inl h

/-- What reading a text as a polynomial comes to. -/
inductive Verdict (text : List Char) : Except EquationError Polynomial → Prop
  | separator : text.count '=' ≠ 1 → Verdict text (.error (.separator text))
  | leftForm {left right e} : Sides text left right → FormFault left e → Verdict text (.error e)
  | rightForm {left right e} : Sides text left right → WellFormed left → FormFault right e →
      Verdict text (.error e)
  | leftRange {left right w} : Sides text left right → WellFormed right → FirstOutOfRange left w →
      Verdict text (.error (.termRange (trim w.chars)))
  | rightRange {left right w} : Sides text left right → Readable left → FirstOutOfRange right w →
      Verdict text (.error (.termRange (trim w.chars)))
  | read {left right ts} : Sides text left right → Readable left → Readable right →
      terms text = .ok ts → Verdict text (.ok (Polynomial.reduce ts.difference))

section

variable {text left right : List Char}

theorem check_of_sides (h : Sides text left right) :
    check text = (checkSide left).bind fun _ => checkSide right := by
  rw [check, parts_eq_ok_iff.2 h]
  rfl

theorem terms_of_sides (h : Sides text left right) :
    terms text = (sideTerms left).bind fun l => (sideTerms right).map fun r => ⟨l, r⟩ := by
  rw [terms, parts_eq_ok_iff.2 h]
  show (sideTerms left).bind _ = _
  congr 1

theorem check_of_wellFormed (h : Sides text left right) (hl : WellFormed left)
    (hr : WellFormed right) : check text = .ok () := by
  rw [check_of_sides h, checkSide_of_wellFormed hl]
  exact checkSide_of_wellFormed hr

theorem terms_of_readable (h : Sides text left right) (hl : Readable left) (hr : Readable right) :
    ∃ ts, terms text = .ok ts ∧ Matched left ts.left.length ∧ Matched right ts.right.length := by
  obtain ⟨xs, hxs, hm⟩ := sideTerms_of_readable hl
  obtain ⟨ys, hys, hn⟩ := sideTerms_of_readable hr
  refine ⟨⟨xs, ys⟩, ?_, hm, hn⟩
  rw [terms_of_sides h, hxs, hys]
  rfl

theorem terms_of_leftOutOfRange {w : WrittenTerm} (h : Sides text left right)
    (hl : FirstOutOfRange left w) : terms text = .error (.termRange (trim w.chars)) := by
  rw [terms_of_sides h, sideTerms_of_firstOutOfRange hl]
  rfl

theorem terms_of_rightOutOfRange {w : WrittenTerm} (h : Sides text left right) (hl : Readable left)
    (hr : FirstOutOfRange right w) : terms text = .error (.termRange (trim w.chars)) := by
  obtain ⟨xs, hxs, -⟩ := sideTerms_of_readable hl
  rw [terms_of_sides h, hxs, sideTerms_of_firstOutOfRange hr]
  rfl

theorem polynomial_of_check_eq_error {e : EquationError} (h : check text = .error e) :
    polynomial text = .error e := by
  rw [polynomial, h]
  rfl

theorem polynomial_of_check_eq_ok (h : check text = .ok ()) :
    polynomial text = (terms text).map fun ts => Polynomial.reduce ts.difference := by
  rw [polynomial, h]
  cases terms text <;> rfl

end

/-- A verdict is the outcome. -/
theorem Verdict.polynomial_eq {text : List Char} {r : Except EquationError Polynomial}
    (h : Verdict text r) : polynomial text = r := by
  cases h with
  | separator hc =>
    refine polynomial_of_check_eq_error ?_
    rw [check, parts, if_neg hc]
    rfl
  | leftForm hs hl =>
    refine polynomial_of_check_eq_error ?_
    rw [check_of_sides hs, checkSide_of_formFault hl]
    rfl
  | rightForm hs hl hr =>
    refine polynomial_of_check_eq_error ?_
    rw [check_of_sides hs, checkSide_of_wellFormed hl, checkSide_of_formFault hr]
    rfl
  | leftRange hs hr hl =>
    rw [polynomial_of_check_eq_ok (check_of_wellFormed hs hl.wellFormed hr),
      terms_of_leftOutOfRange hs hl]
    rfl
  | rightRange hs hl hr =>
    rw [polynomial_of_check_eq_ok (check_of_wellFormed hs hl.wellFormed hr.wellFormed),
      terms_of_rightOutOfRange hs hl hr]
    rfl
  | read hs hl hr ht =>
    rw [polynomial_of_check_eq_ok (check_of_wellFormed hs hl.wellFormed hr.wellFormed), ht]
    rfl

/-- The cases are split in the order in which the program looks for faults. -/
theorem exists_verdict (text : List Char) : ∃ r, Verdict text r := by
  rcases sides_or_count_ne text with hc | ⟨left, right, hs⟩
  · exact ⟨_, .separator hc⟩
  rcases wellFormed_or_formFault left with hl | ⟨e, hl⟩
  case inr => exact ⟨_, .leftForm hs hl⟩
  rcases wellFormed_or_formFault right with hr | ⟨e, hr⟩
  case inr => exact ⟨_, .rightForm hs hl hr⟩
  rcases readable_or_firstOutOfRange hl with hl | ⟨w, hl⟩
  case inr => exact ⟨_, .leftRange hs hr hl⟩
  rcases readable_or_firstOutOfRange hr with hr | ⟨w, hr⟩
  case inr => exact ⟨_, .rightRange hs hl hr⟩
  obtain ⟨ts, ht, -⟩ := terms_of_readable hs hl hr
  exact ⟨_, .read hs hl hr ht⟩

theorem polynomial_eq_iff_verdict {text : List Char} {r : Except EquationError Polynomial} :
    polynomial text = r ↔ Verdict text r := by
  refine ⟨fun h => ?_, Verdict.polynomial_eq⟩
  obtain ⟨r', hv⟩ := exists_verdict text
  rwa [← h, hv.polynomial_eq]

/-! ## The two passes -/

theorem check_eq_ok_iff {text : List Char} :
    check text = .ok () ↔
      ∃ left right, Sides text left right ∧ WellFormed left ∧ WellFormed right := by
  refine ⟨fun h => ?_, fun ⟨_, _, hs, hl, hr⟩ => check_of_wellFormed hs hl hr⟩
  rcases sides_or_count_ne text with hc | ⟨left, right, hs⟩
  · rw [check, parts, if_neg hc] at h
    contradiction
  rw [check_of_sides hs] at h
  rcases wellFormed_or_formFault left with hl | ⟨e, hl⟩
  · rw [checkSide_of_wellFormed hl] at h
    rcases wellFormed_or_formFault right with hr | ⟨e, hr⟩
    · exact ⟨left, right, hs, hl, hr⟩
    · rw [checkSide_of_formFault hr] at h
      contradiction
  · rw [checkSide_of_formFault hl] at h
    contradiction

/-- What is read has passed the check. -/
theorem check_of_terms {text : List Char} {ts : Terms} (h : terms text = .ok ts) :
    check text = .ok () := by
  rcases sides_or_count_ne text with hc | ⟨left, right, hs⟩
  · rw [terms, parts, if_neg hc] at h
    contradiction
  rw [terms_of_sides hs] at h
  rcases wellFormed_or_formFault left with hl | ⟨e, hl⟩
  case inr =>
    rw [sideTerms_of_formFault hl] at h
    contradiction
  rcases wellFormed_or_formFault right with hr | ⟨e, hr⟩
  case inr =>
    rw [sideTerms_of_formFault hr] at h
    cases hx : sideTerms left <;> rw [hx] at h <;> contradiction
  exact check_of_wellFormed hs hl hr

/-- What has passed the check is read, or has a term out of range. -/
theorem terms_of_check {text : List Char} (h : check text = .ok ()) :
    (∃ left right ts, Sides text left right ∧ terms text = .ok ts ∧
        Matched left ts.left.length ∧ Matched right ts.right.length) ∨
      ∃ term, terms text = .error (.termRange term) := by
  obtain ⟨left, right, hs, hl, hr⟩ := check_eq_ok_iff.1 h
  rcases readable_or_firstOutOfRange hl with hl | ⟨w, hl⟩
  case inr => exact Or.inr ⟨_, terms_of_leftOutOfRange hs hl⟩
  rcases readable_or_firstOutOfRange hr with hr | ⟨w, hr⟩
  case inr => exact Or.inr ⟨_, terms_of_rightOutOfRange hs hl hr⟩
  obtain ⟨ts, ht, hm, hn⟩ := terms_of_readable hs hl hr
  exact Or.inl ⟨left, right, ts, hs, ht, hm, hn⟩

theorem check_of_isNumeric {text : List Char} {e : EquationError}
    (h : polynomial text = .error e) (he : e.isNumeric) : check text = .ok () := by
  cases polynomial_eq_iff_verdict.1 h with
  | separator => contradiction
  | leftForm _ hl => rw [hl.isNumeric] at he; contradiction
  | rightForm _ _ hr => rw [hr.isNumeric] at he; contradiction
  | leftRange hs hr hl => exact check_of_wellFormed hs hl.wellFormed hr
  | rightRange hs hl hr => exact check_of_wellFormed hs hl.wellFormed hr.wellFormed

theorem polynomial_eq_ok_iff {text : List Char} :
    (∃ p, polynomial text = .ok p) ↔ ∃ ts, terms text = .ok ts := by
  constructor
  · rintro ⟨p, h⟩
    cases polynomial_eq_iff_verdict.1 h with
    | read _ _ _ ht => exact ⟨_, ht⟩
  · rintro ⟨ts, h⟩
    rw [polynomial_of_check_eq_ok (check_of_terms h), h]
    exact ⟨_, rfl⟩

theorem separator_iff {text : List Char} :
    (∃ d, polynomial text = .error (.separator d)) ↔ text.count '=' ≠ 1 := by
  refine ⟨fun ⟨d, h⟩ => ?_, fun h => ⟨text, (Verdict.separator h).polynomial_eq⟩⟩
  cases polynomial_eq_iff_verdict.1 h with
  | separator hc => exact hc
  | leftForm _ hl => exact absurd rfl (hl.ne_separator d)
  | rightForm _ _ hr => exact absurd rfl (hr.ne_separator d)

/-- The terms of both sides are as many as the two sides have. -/
theorem Terms.length_difference (ts : Terms) :
    ts.difference.length = ts.left.length + ts.right.length := by
  rw [difference, List.length_append, List.length_map]

/-- For every text the outcome is the verdict. Numbers matter only to texts that pass the check;
those are read whole, with as many terms as the check matches on the two sides, or have a term out
of range. -/
theorem polynomial_agrees_with_verdict (text : List Char) :
    (∀ r, polynomial text = r ↔ Verdict text r) ∧
    ((∃ d, polynomial text = .error (.separator d)) ↔ text.count '=' ≠ 1) ∧
    (∀ e, polynomial text = .error e → e.isNumeric → check text = .ok ()) ∧
    ((∃ p, polynomial text = .ok p) ↔ ∃ ts, terms text = .ok ts) ∧
    (check text = .ok () →
      (∃ left right ts, Sides text left right ∧ terms text = .ok ts ∧
          Matched left ts.left.length ∧ Matched right ts.right.length ∧
          ts.difference.length = ts.left.length + ts.right.length) ∨
        ∃ term, terms text = .error (.termRange term)) := by
  refine ⟨fun _ => polynomial_eq_iff_verdict, separator_iff, fun _ => check_of_isNumeric,
    polynomial_eq_ok_iff, fun hcheck => (terms_of_check hcheck).imp_left ?_⟩
  rintro ⟨left, right, ts, hs, ht, hm, hn⟩
  exact ⟨left, right, ts, hs, ht, hm, hn, ts.length_difference⟩

/-- The equation `x^2-x^1=0`. -/
def twoTermsText : List Char := ['x', '^', '2', '-', 'x', '^', '1', '=', '0']

/-- Its terms, with the zero on the right. -/
def twoTerms : Terms := ⟨[⟨1, 2⟩, ⟨-1, 1⟩], [⟨.zero, 0⟩]⟩

theorem terms_twoTermsText : terms twoTermsText = .ok twoTerms := by decide +kernel

/-- A blank right side comes before an exponent below zero on the left, which passes the check. Of
two terms and a side that is just `0`, three terms are read. -/
theorem polynomial_of_two_faults :
    polynomial ['x', '^', '-', '1', '='] = .error (.emptySide []) ∧
      polynomial ['x', '^', '-', '1', '=', '0'] = .error (.termRange ['x', '^', '-', '1']) ∧
      check ['x', '^', '-', '1', '=', '0'] = .ok () ∧
      (∃ p, polynomial twoTermsText = .ok p) ∧ twoTerms.difference.length = 3 := by
  let term : WrittenTerm := .compact none none true (.single '1' (by decide))
  have blank : FormFault [] (.emptySide []) := {
    notZero := by decide
    notGrammatical := fun ⟨s, hs⟩ => Token.not_all_blank s (hs ▸ List.forall_mem_nil _)
    scanned := rfl
    kind := Or.inl ⟨List.forall_mem_nil _, rfl⟩ }
  have left : FirstOutOfRange ['x', '^', '-', '1'] term :=
    ⟨⟨term, [], by simp⟩, [], [], rfl, rfl, by simp, Or.inr (Or.inl (by decide))⟩
  obtain ⟨verdict, -, numeric, -⟩ := polynomial_agrees_with_verdict ['x', '^', '-', '1', '=', '0']
  have range := (verdict _).2 (.leftRange ⟨rfl, by decide, by decide⟩ (Or.inl rfl) left)
  refine ⟨?_, range, numeric _ range rfl, ?_⟩
  · exact ((polynomial_agrees_with_verdict _).1 _).2
      (.rightForm ⟨rfl, by decide, by decide⟩ left.wellFormed blank)
  · obtain ⟨-, -, -, read, count⟩ := polynomial_agrees_with_verdict twoTermsText
    refine ⟨read.2 ⟨_, terms_twoTermsText⟩, ?_⟩
    rcases count (check_of_terms terms_twoTermsText) with
      ⟨-, -, ts, -, ht, -, -, hlength⟩ | ⟨term, ht⟩
    · obtain rfl : twoTerms = ts := Except.ok.inj (terms_twoTermsText.symm.trans ht)
      exact hlength
    · cases terms_twoTermsText.symm.trans ht

end Equation

end PolySolve
