import PolySolve.Proofs.Equation.Scanning

/-!
# The signs in front of a term

The documented grammar has one sign at most in front of the first term of a side. A later term has
the operator that introduces it, and a minus may follow. The scanner has both places in every term,
also in the first one, so it reads more: a sign in front of a documented side that starts with a
minus.

* `leadingSigns`: the signs in front of a text, with blanks anywhere between them;
* `WrittenTerm.leadingSigns_chars`: those of a term are its operator and its sign;
* `documented_iff`, `doublySigned_iff`: sides told apart by the signs in front of them;
* `exists_written_of_mem`: every token is a written term;
* `signs_of_accepted`: which sides are read, and which signs they have.
-/

namespace PolySolve

open Text

/-! ## Signs in front of a text -/

def isSign (c : Char) : Bool := c == '+' || c == '-'

/-- The signs in front of a text. -/
def leadingSigns (cs : List Char) : List Char :=
  (cs.takeWhile fun c => isBlank c || isSign c).filter isSign

theorem isSign_of_isBlank {c : Char} (h : isBlank c) : isSign c = false := by
  rw [Bool.eq_false_iff]
  intro hsign
  simp only [isSign, Bool.or_eq_true, beq_iff_eq] at hsign
  rcases hsign with rfl | rfl <;> exact absurd h (by decide)

theorem leadingSigns_cons_of_isSign {c : Char} (h : isSign c) (cs : List Char) :
    leadingSigns (c :: cs) = c :: leadingSigns cs := by
  rw [leadingSigns, List.takeWhile_cons_of_pos (by simp [h]), List.filter_cons_of_pos h,
    leadingSigns]

theorem leadingSigns_eq_nil {c : Char} (hblank : isBlank c = false) (hsign : isSign c = false)
    (cs : List Char) : leadingSigns (c :: cs) = [] := by
  rw [leadingSigns, List.takeWhile_cons_of_neg (by simp [hblank, hsign]), List.filter_nil]

theorem isSign_operator (o : Operator) : isSign o.char := by cases o <;> rfl

theorem leadingSigns_operatorChars (operator : Option Operator) (cs : List Char) :
    leadingSigns (operatorChars operator ++ cs) = operatorChars operator ++ leadingSigns cs := by
  cases operator with
  | none => rfl
  | some o => exact leadingSigns_cons_of_isSign (isSign_operator o) cs

theorem leadingSigns_minusChars (present : Bool) (cs : List Char) :
    leadingSigns (minusChars present ++ cs) = minusChars present ++ leadingSigns cs := by
  cases present with
  | false => rfl
  | true => exact leadingSigns_cons_of_isSign rfl cs

namespace BlankRun

/-- Blanks after blanks. -/
def append (b₁ b₂ : BlankRun) : BlankRun :=
  ⟨b₁.chars ++ b₂.chars, List.forall_mem_append.2 ⟨b₁.blank, b₂.blank⟩⟩

theorem leadingSigns_append (b : BlankRun) (cs : List Char) :
    leadingSigns (b.chars ++ cs) = leadingSigns cs := by
  have hskip : ∀ c ∈ b.chars, (isBlank c || isSign c) = true := fun c hc => by
    rw [b.blank c hc, Bool.true_or]
  have hnone : b.chars.filter isSign = [] := List.filter_eq_nil_iff.2 fun c hc => by
    rw [isSign_of_isBlank (b.blank c hc)]
    exact Bool.false_ne_true
  rw [leadingSigns, List.takeWhile_append_of_pos hskip, List.filter_append, hnone, List.nil_append,
    leadingSigns]

end BlankRun

/-! ## Signs in front of terms and sides -/

theorem WrittenTerm.leadingSigns_body (w : WrittenTerm) (rest : List Char) :
    leadingSigns (w.body ++ rest) = [] := by
  obtain ⟨c, cs, h, hc⟩ := w.body_head
  rw [h]
  rcases hc with hdigit | rfl
  · refine leadingSigns_eq_nil (isBlank_of_isDigit hdigit) (Bool.eq_false_iff.2 fun hsign => ?_) _
    simp only [isSign, Bool.or_eq_true, beq_iff_eq] at hsign
    rcases hsign with rfl | rfl <;> exact absurd hdigit (by decide)
  · refine leadingSigns_eq_nil (isBlank_letterChar _) ?_ _
    cases w.capital <;> rfl

/-- The signs in front of a term are its operator and its sign. -/
theorem WrittenTerm.leadingSigns_chars (w : WrittenTerm) (rest : List Char) :
    leadingSigns (w.chars ++ rest) = operatorChars w.operator ++ minusChars w.signed := by
  simp only [WrittenTerm.chars, WrittenTerm.charsFromOperator, List.append_assoc]
  rw [w.margin.leadingSigns_append, leadingSigns_operatorChars, w.afterOperator.leadingSigns_append,
    leadingSigns_minusChars, w.afterSign.leadingSigns_append, w.leadingSigns_body, List.append_nil]

theorem WrittenSide.leadingSigns_chars (s : WrittenSide) :
    leadingSigns s.chars = operatorChars s.first.operator ++ minusChars s.first.signed :=
  s.first.leadingSigns_chars _

theorem Operator.eq_of_char_eq {o o' : Operator} (h : o.char = o'.char) : o = o' := by
  cases o <;> cases o' <;> simp_all [Operator.char]

/-- What the signs of a side say of its first term, if there are two. -/
theorem signs_eq_pair_iff {operator : Option Operator} {signed : Bool} {o : Operator} :
    operatorChars operator ++ minusChars signed = [o.char, '-'] ↔
      operator = some o ∧ signed = true := by
  constructor
  · intro h
    cases operator with
    | none => cases signed <;> simp [operatorChars, minusChars] at h
    | some o' =>
      cases signed with
      | false => simp [operatorChars, minusChars] at h
      | true => exact ⟨congrArg some (Operator.eq_of_char_eq (List.cons.inj h).1), rfl⟩
  · rintro ⟨rfl, rfl⟩
    rfl

/-- A side of the documented grammar: its first term has no more than one sign. -/
def Documented (side : List Char) : Prop :=
  ∃ s : WrittenSide, s.chars = side ∧ ¬ (s.first.operator.isSome ∧ s.first.signed)

/-- A sign in front of a documented side that starts with a minus. -/
def DoublySigned (side : List Char) : Prop :=
  ∃ (margin : BlankRun) (o : Operator) (rest : List Char), side = margin.chars ++ o.char :: rest ∧
    Documented rest ∧ leadingSigns rest = ['-']

theorem documented_iff {side : List Char} :
    Documented side ↔ Grammatical side ∧ (leadingSigns side).length ≤ 1 := by
  have count (s : WrittenSide) : (leadingSigns s.chars).length ≤ 1 ↔
      ¬ (s.first.operator.isSome ∧ s.first.signed) := by
    rw [s.leadingSigns_chars]
    cases s.first.operator <;> cases s.first.signed <;> simp [operatorChars, minusChars]
  constructor
  · rintro ⟨s, rfl, hs⟩
    exact ⟨⟨s, rfl⟩, (count s).2 hs⟩
  · rintro ⟨⟨s, rfl⟩, hs⟩
    exact ⟨s, rfl, (count s).1 hs⟩

/-- A sign in front of a term that has a lone minus makes a term with two signs. -/
theorem exists_term_of_lone_minus (w : WrittenTerm) (hw : ¬ (w.operator.isSome ∧ w.signed))
    (hminus : operatorChars w.operator ++ minusChars w.signed = ['-']) (margin : BlankRun)
    (o : Operator) : ∃ v : WrittenTerm, v.chars = margin.chars ++ o.char :: w.chars := by
  let v (between after : BlankRun) : WrittenTerm := { w with
    margin := margin
    operator := some o
    afterOperator := between
    signed := true
    afterSign := after }
  have hv (between after : BlankRun) : (v between after).chars =
      margin.chars ++ o.char :: (between.chars ++ '-' :: (after.chars ++ w.body)) := rfl
  have hchars : w.chars = w.margin.chars ++ (operatorChars w.operator ++
      (w.afterOperator.chars ++ (minusChars w.signed ++ (w.afterSign.chars ++ w.body)))) := rfl
  cases hoperator : w.operator with
  | none =>
    -- The minus is the sign, so the blanks on both sides of the missing operator come together.
    have hsigned : w.signed = true := by
      cases hs : w.signed with
      | true => rfl
      | false =>
        rw [hoperator, hs] at hminus
        cases hminus
    refine ⟨v (w.margin.append w.afterOperator) w.afterSign, ?_⟩
    rw [hv, hchars, hoperator, hsigned]
    simp [BlankRun.append, operatorChars, minusChars]
  | some o' =>
    -- The minus is the operator, so those on both sides of the missing sign do.
    have hsigned : w.signed = false := Bool.eq_false_iff.2 fun hs => hw ⟨by rw [hoperator]; rfl, hs⟩
    rw [hoperator, hsigned] at hminus
    have ho : o'.char = '-' := (List.cons.inj hminus).1
    refine ⟨v w.margin (w.afterOperator.append w.afterSign), ?_⟩
    rw [hv, hchars, hoperator, hsigned]
    simp [BlankRun.append, operatorChars, minusChars, ho]

theorem doublySigned_iff {side : List Char} :
    DoublySigned side ↔ Grammatical side ∧ ∃ o : Operator, leadingSigns side = [o.char, '-'] := by
  constructor
  · rintro ⟨margin, o, rest, rfl, ⟨s, rfl, hs⟩, hminus⟩
    refine ⟨?_, o, ?_⟩
    · rw [s.leadingSigns_chars] at hminus
      obtain ⟨v, hv⟩ := exists_term_of_lone_minus s.first hs hminus margin o
      refine ⟨⟨v, s.later, s.introduced⟩, ?_⟩
      show (v :: s.later).flatMap WrittenTerm.chars = _
      rw [List.flatMap_cons, hv, List.append_assoc, List.cons_append]
      rfl
    · rw [margin.leadingSigns_append, leadingSigns_cons_of_isSign (isSign_operator o), hminus]
  · rintro ⟨⟨s, rfl⟩, o, hsigns⟩
    rw [s.leadingSigns_chars, signs_eq_pair_iff] at hsigns
    obtain ⟨hoperator, hsigned⟩ := hsigns
    let first : WrittenTerm := { s.first with
      margin := s.first.afterOperator
      operator := none
      afterOperator := .empty }
    let tail : WrittenSide := ⟨first, s.later, s.introduced⟩
    refine ⟨s.first.margin, o, tail.chars, ?_, ⟨tail, rfl, fun h => ?_⟩, ?_⟩
    · show (s.first :: s.later).flatMap WrittenTerm.chars =
        s.first.margin.chars ++ o.char :: (first :: s.later).flatMap WrittenTerm.chars
      simp [WrittenTerm.chars, WrittenTerm.charsFromOperator, first, hoperator, operatorChars,
        BlankRun.empty, WrittenTerm.body, WrittenTerm.exponentChars]
    · exact absurd h.1 Bool.false_ne_true
    · rw [tail.leadingSigns_chars]
      show operatorChars none ++ minusChars s.first.signed = _
      rw [hsigned]
      rfl

/-! ## Signs of tokens -/

namespace Token

/-- Every token is a written term, and from the second one on there is an operator. -/
theorem exists_written_of_mem_tokensUpTo {n : Nat} {first : Bool} {cs : List Char}
    {ts : List Token} (h : tokensUpTo n first cs = .ok ts) :
    ∀ t ∈ if first then ts.tail else ts,
      ∃ w : WrittenTerm, w.chars = t.text ∧ w.operator.isSome := by
  induction n generalizing first cs ts with
  | zero =>
    cases cs with
    | nil =>
      obtain rfl := Except.ok.inj h
      simp
    | cons c cs => contradiction
  | succ n ih =>
    cases cs with
    | nil =>
      obtain rfl := Except.ok.inj h
      simp
    | cons c cs =>
      obtain ⟨t, rest, us, hs, ho, hu, rfl⟩ := exists_of_tokensUpTo_cons h
      have later : ∀ u ∈ us, ∃ w : WrittenTerm, w.chars = u.text ∧ w.operator.isSome := ih hu
      cases first with
      | true => exact later
      | false =>
        obtain ⟨w, hw, hop, -⟩ := exists_written_of_scan? hs
        have htext : w.chars = t.text :=
          List.append_cancel_right (hw.trans (text_append_of_scan? hs).symm)
        exact List.forall_mem_cons.2 ⟨⟨w, htext, hop ▸ ho rfl⟩, later⟩

theorem exists_written_of_mem {side : List Char} {ts : List Token} (h : tokens side = .ok ts) :
    ∀ t ∈ ts.tail, ∃ w : WrittenTerm, w.chars = t.text ∧ w.operator.isSome := by
  unfold tokens at h
  split at h
  · contradiction
  · exact exists_written_of_mem_tokensUpTo h

/-- One operator stands in front of a text, and a minus may follow. -/
def IsIntroduced (cs : List Char) : Prop :=
  ∃ o : Operator, leadingSigns cs = [o.char] ∨ leadingSigns cs = [o.char, '-']

theorem isIntroduced_of_mem {side : List Char} {ts : List Token} (h : tokens side = .ok ts) :
    ∀ t ∈ ts.tail, IsIntroduced t.text := by
  intro t ht
  obtain ⟨w, hw, ho⟩ := exists_written_of_mem h t ht
  obtain ⟨o, ho⟩ := Option.isSome_iff_exists.1 ho
  have hsigns := w.leadingSigns_chars []
  rw [List.append_nil, hw, ho] at hsigns
  refine ⟨o, ?_⟩
  cases hs : w.signed with
  | false => exact Or.inl (by rw [hsigns, hs]; rfl)
  | true => exact Or.inr (by rw [hsigns, hs]; rfl)

theorem grammatical_iff {side : List Char} :
    Grammatical side ↔ Documented side ∨ DoublySigned side := by
  rw [documented_iff, doublySigned_iff]
  constructor
  · rintro ⟨s, rfl⟩
    by_cases h : ∃ o : Operator, leadingSigns s.chars = [o.char, '-']
    · exact Or.inr ⟨⟨s, rfl⟩, h⟩
    · refine Or.inl ⟨⟨s, rfl⟩, ?_⟩
      rw [s.leadingSigns_chars] at h ⊢
      cases ho : s.first.operator with
      | none => cases s.first.signed <;> simp [operatorChars, minusChars]
      | some o =>
        cases hs : s.first.signed with
        | false => simp [operatorChars, minusChars]
        | true => exact absurd ⟨o, by rw [ho, hs]; rfl⟩ h
  · rintro (h | h) <;> exact h.1

theorem exists_tokens_iff {side : List Char} : (∃ ts, tokens side = .ok ts) ↔ Grammatical side := by
  constructor
  · rintro ⟨ts, h⟩
    exact grammatical_of_tokens h
  · rintro ⟨s, rfl⟩
    obtain ⟨ts, h, -⟩ := tokens_chars s
    exact ⟨ts, h⟩

/-- The sides that are read are the documented ones, and those that have a sign in front of a
documented side with a minus. The documented ones among them are those with one sign in front at
most. A later term has one operator in front and perhaps a minus, and there are never more signs. -/
theorem signs_of_accepted (side : List Char) :
    ((∃ ts, tokens side = .ok ts) ↔ Documented side ∨ DoublySigned side) ∧
    (Documented side ↔ (∃ ts, tokens side = .ok ts) ∧ (leadingSigns side).length ≤ 1) ∧
    (DoublySigned side ↔
      (∃ ts, tokens side = .ok ts) ∧ ∃ o : Operator, leadingSigns side = [o.char, '-']) ∧
    ∀ ts, tokens side = .ok ts → ∀ t ∈ ts.tail, IsIntroduced t.text := by
  rw [exists_tokens_iff]
  exact ⟨grammatical_iff, documented_iff, doublySigned_iff, fun _ h => isIntroduced_of_mem h⟩

/-- A side with a sign in front of its first term, and a later term with an operator and a minus. -/
theorem signs_of_minusTerms :
    let side := "-x^1 + -x^2".toList
    ∃ ts, tokens side = .ok ts ∧ Documented side ∧ ∃ t ∈ ts.tail, IsIntroduced t.text := by
  intro side
  have hread : ∃ t u, tokens side = .ok [t, u] := ⟨_, _, rfl⟩
  obtain ⟨t, u, hts⟩ := hread
  obtain ⟨-, hdocumented, -, hlater⟩ := signs_of_accepted side
  exact ⟨_, hts, hdocumented.2 ⟨⟨_, hts⟩, by decide⟩, u, by simp, hlater _ hts u (by simp)⟩

/-- A first term with two signs is read, and is not documented. -/
theorem accepts_twoSigns :
    (∃ ts, tokens "- -2*X^0".toList = .ok ts) ∧ leadingSigns "- -2*X^0".toList = ['-', '-'] ∧
      ¬ Documented "- -2*X^0".toList := by
  have hsigns : leadingSigns "- -2*X^0".toList = ['-', '-'] := by decide
  refine ⟨⟨_, rfl⟩, hsigns, fun h => ?_⟩
  have hcount := (documented_iff.1 h).2
  rw [hsigns] at hcount
  exact absurd hcount (by decide)

end Token

end PolySolve
