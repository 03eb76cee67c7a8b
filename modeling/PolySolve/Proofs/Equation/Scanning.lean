import Mathlib.Data.List.Forall2
import PolySolve.Proofs.Equation.Grammar

/-!
# The scanner and the grammar

The scanner decides every choice by the next character, and the grammar lets
blanks and a lone minus go to either of two places. Both accept the same sides
and read the same terms off them:

* `exists_written_of_scan?`: what the scanner takes is a written term;
* `scan?_chars_append`: of a written term the scanner takes all, with the blanks
  of whatever follows it;
* `Token.Reads`: what a token and a written term have in common;
* `tokens_chars`, `grammatical_of_tokens`: the two directions for whole sides.
-/

namespace PolySolve

open Text

namespace Token

/-! ## What the scanner takes is written -/

theorem operatorChars_append (cs : List Char) :
    operatorChars (scanOperator cs).1 ++ (scanOperator cs).2 = cs := by
  unfold scanOperator; split <;> rfl

theorem minusChars_append (cs : List Char) :
    minusChars (scanMinus cs).1 ++ (scanMinus cs).2 = cs := by
  unfold scanMinus; split <;> rfl

theorem exists_written_of_numeralScan? {cs r : List Char} {n : Numeral}
    (h : Numeral.scan? cs = some (n, r)) :
    ∃ w : WrittenNumber, w.numeral = n ∧ w.chars ++ r = cs := by
  have hcs : cs.takeWhile isDigit ++ cs.dropWhile isDigit = cs := List.takeWhile_append_dropWhile
  simp only [Numeral.scan?] at h
  split at h
  · contradiction
  rename_i hw
  have whole : some (⟨cs.takeWhile isDigit, []⟩, cs.dropWhile isDigit) = some (n, r) →
      ∃ w : WrittenNumber, w.numeral = n ∧ w.chars ++ r = cs := fun he => by
    obtain ⟨rfl, rfl⟩ := Prod.mk.inj (Option.some.inj he)
    exact ⟨⟨.leading cs hw, none⟩, rfl, hcs⟩
  split at h
  · rename_i r' hr
    split at h
    · exact whole h
    · rename_i hf
      obtain ⟨rfl, rfl⟩ := Prod.mk.inj (Option.some.inj h)
      refine ⟨⟨.leading cs hw, some (.leading r' hf)⟩, rfl, ?_⟩
      have hr' : r'.takeWhile isDigit ++ r'.dropWhile isDigit = r' :=
        List.takeWhile_append_dropWhile
      calc (cs.takeWhile isDigit ++ '.' :: r'.takeWhile isDigit) ++ r'.dropWhile isDigit
          = cs.takeWhile isDigit ++ '.' :: r' := by rw [List.append_assoc, List.cons_append, hr']
        _ = cs := by rw [← hr, hcs]
  · exact whole h

theorem exists_written_of_scanCoefficient? {cs r : List Char} {n : Option Numeral}
    (h : scanCoefficient? cs = some (n, r)) :
    ∃ f : Option WrittenFactor, f.map (·.number.numeral) = n ∧ factorChars f ++ r = cs := by
  unfold scanCoefficient? at h
  split at h
  · obtain ⟨rfl, rfl⟩ := Prod.mk.inj (Option.some.inj h)
    exact ⟨none, rfl, rfl⟩
  · rename_i m s hs
    obtain ⟨w, rfl, rfl⟩ := exists_written_of_numeralScan? hs
    split at h
    · rename_i s' ht
      obtain ⟨rfl, rfl⟩ := Prod.mk.inj (Option.some.inj h)
      refine ⟨some ⟨w, .leading s, .leading s'⟩, rfl, ?_⟩
      have hb := BlankRun.leading_append s
      rw [ht] at hb
      have ha := BlankRun.leading_append s'
      simp only [factorChars, WrittenFactor.chars, List.append_assoc, List.cons_append]
      rw [ha, hb]
    · contradiction

theorem exists_written_of_scanPower? {cs r : List Char} (h : scanPower? cs = some r) :
    ∃ capital afterLetter afterCaret, powerChars capital afterLetter afterCaret ++ r = cs := by
  unfold scanPower? at h
  split at h
  · rename_i x s
    split at h
    · rename_i hx
      split at h
      · rename_i s' ht
        obtain rfl := Option.some.inj h
        have hb := BlankRun.leading_append s
        rw [ht] at hb
        have ha := BlankRun.leading_append s'
        refine ⟨x == 'X', .leading s, .leading s', ?_⟩
        have hl : letterChar (x == 'X') = x := by
          rcases hx with rfl | rfl <;> rfl
        rw [powerChars, hl, List.cons_append, List.append_assoc, List.cons_append, ha, hb]
      · contradiction
    · contradiction
  · contradiction

/-! ## What a token and a written term have in common -/

/-- What of a term does not depend on how it is split up. -/
def reading (t : Token) : TermReading where
  parity := minusCount t.operator t.signed % 2
  coefficient := t.coefficient.map Numeral.chars
  exponent := t.exponentChars

/-- A token says what a written term says, in the same characters but for blanks around them. -/
structure Reads (t : Token) (w : WrittenTerm) : Prop where
  minuses : minusCount t.operator t.signed % 2 = w.minuses % 2
  coefficient : t.coefficient = w.numeral
  exponentNegative : t.exponentNegative = w.exponentNegative
  exponentDigits : t.exponentDigits = w.exponentDigits.chars
  text : trim t.text = trim w.chars

theorem Reads.reading {t : Token} {w : WrittenTerm} (h : t.Reads w) : t.reading = w.reading := by
  have hc : t.coefficient.map Numeral.chars = w.factor.map (·.number.chars) := by
    rw [h.coefficient, WrittenTerm.numeral, Option.map_map]
    exact congrArg (Option.map · w.factor) (funext fun f => f.number.chars_numeral)
  have he : t.exponentChars = w.exponentChars := by
    rw [exponentChars, h.exponentNegative, h.exponentDigits, WrittenTerm.exponentChars, minusChars]
    cases w.exponentNegative <;> rfl
  rw [Token.reading, WrittenTerm.reading, h.minuses, hc, he]

theorem exists_written_of_scan? {cs rest : List Char} {t : Token} (h : scan? cs = some (t, rest)) :
    ∃ w : WrittenTerm, w.chars ++ rest = cs ∧ w.operator = t.operator ∧ t.Reads w := by
  have htext := text_append_of_scan? h
  simp only [scan?, Option.bind_eq_bind, Option.bind_eq_some_iff, Prod.exists] at h
  obtain ⟨n, r₁, h₁, r₂, h₂, h⟩ := h
  split at h
  · contradiction
  rename_i hd
  obtain ⟨rfl, rfl⟩ := Prod.mk.inj (Option.some.inj h)
  obtain ⟨f, rfl, hf⟩ := exists_written_of_scanCoefficient? h₁
  obtain ⟨capital, afterLetter, afterCaret, hp⟩ := exists_written_of_scanPower? h₂
  have w₁ := BlankRun.leading_append cs
  have w₂ := operatorChars_append (trimStart cs)
  generalize scanOperator (trimStart cs) = so at *
  have w₃ := BlankRun.leading_append so.2
  have w₄ := minusChars_append (trimStart so.2)
  generalize scanMinus (trimStart so.2) = sm at *
  have w₅ := BlankRun.leading_append sm.2
  have w₆ := minusChars_append r₂
  generalize scanMinus r₂ = se at *
  have w₇ : se.2.takeWhile isDigit ++ se.2.dropWhile isDigit = se.2 :=
    List.takeWhile_append_dropWhile
  have w₈ := BlankRun.leading_append (se.2.dropWhile isDigit)
  let w : WrittenTerm := {
    margin := .leading cs
    operator := so.1
    afterOperator := .leading so.2
    signed := sm.1
    afterSign := .leading sm.2
    factor := f
    capital := capital
    afterLetter := afterLetter
    afterCaret := afterCaret
    exponentNegative := se.1
    exponentDigits := .leading se.2 hd
    trailing := .leading (se.2.dropWhile isDigit) }
  have hw : w.chars ++ trimStart (se.2.dropWhile isDigit) = cs := by
    simp only [w, WrittenTerm.chars, WrittenTerm.charsFromOperator, WrittenTerm.body,
      WrittenTerm.exponentChars, DigitRun.leading, List.append_assoc]
    rw [w₈, w₇, w₆, hp, hf, w₅, w₄, w₃, w₂, w₁]
  refine ⟨w, hw, rfl, rfl, rfl, rfl, rfl, ?_⟩
  exact congrArg trim (List.append_cancel_right (htext.trans hw.symm))

/-! ## The scanner takes all of a written term -/

theorem numeralScan?_append (n : WrittenNumber) {rest : List Char} (hd : Stops isDigit rest)
    (hp : '.' ∉ rest.head?) : Numeral.scan? (n.chars ++ rest) = some (n.numeral, rest) := by
  obtain ⟨whole, fraction⟩ := n
  cases fraction with
  | none =>
    obtain ⟨hr, hw⟩ := dropWhile_append_of_stops whole.digit hd
    simp only [Numeral.scan?, WrittenNumber.chars, hw, hr, if_neg whole.ne_nil]
    split
    · exact absurd rfl hp
    · rfl
  | some f =>
    have hpoint : isDigit '.' = false := by decide
    obtain ⟨hr, hw⟩ := dropWhile_append_of_stops whole.digit (stops_cons hpoint (f.chars ++ rest))
    obtain ⟨hr', hw'⟩ := dropWhile_append_of_stops f.digit hd
    simp only [Numeral.scan?, WrittenNumber.chars, List.append_assoc, List.cons_append, hw, hr,
      if_neg whole.ne_nil, hw', hr', if_neg f.ne_nil]
    rfl

theorem scanCoefficient?_append (f : Option WrittenFactor) {rest : List Char}
    (hb : Stops isBlank rest) (hd : Stops isDigit rest) :
    scanCoefficient? (factorChars f ++ rest) = some (f.map (·.number.numeral), rest) := by
  unfold scanCoefficient?
  cases f with
  | none =>
    have hn : Numeral.scan? rest = none := by
      simp only [Numeral.scan?, (dropWhile_of_stops hd).2, if_true]
    rw [factorChars, List.nil_append, hn]
    rfl
  | some f =>
    let after := f.afterStar.chars ++ rest
    have hdigit : Stops isDigit (f.beforeStar.chars ++ '*' :: after) :=
      f.beforeStar.stops_append (stops_cons (by decide) _)
    have hpoint : Stops (· == '.') (f.beforeStar.chars ++ '*' :: after) := by
      refine PolySolve.stops_append (fun c hc => ?_) (stops_cons (by decide) _)
      rw [beq_eq_false_iff_ne]
      rintro rfl
      exact absurd (f.beforeStar.blank _ hc) (by decide)
    have hstar : trimStart (f.beforeStar.chars ++ '*' :: after) = '*' :: after :=
      f.beforeStar.trimStart_append_of_stops (stops_cons (by decide) _)
    have hafter : trimStart after = rest := f.afterStar.trimStart_append_of_stops hb
    rw [factorChars, WrittenFactor.chars, List.append_assoc, List.append_assoc, List.cons_append,
      numeralScan?_append _ hdigit fun h => absurd (hpoint _ h) (by decide)]
    dsimp only
    rw [hstar]
    exact congrArg some (congrArg _ hafter)

theorem scanPower?_append (capital : Bool) (afterLetter afterCaret : BlankRun) {rest : List Char}
    (h : Stops isBlank rest) :
    scanPower? (powerChars capital afterLetter afterCaret ++ rest) = some rest := by
  have hx : letterChar capital = 'X' ∨ letterChar capital = 'x' := by cases capital <;> decide
  have hcaret : Stops isBlank ('^' :: (afterCaret.chars ++ rest)) := stops_cons (by decide) _
  rw [powerChars, List.cons_append, List.append_assoc, List.cons_append, scanPower?, if_pos hx,
    afterLetter.trimStart_append_of_stops hcaret]
  exact congrArg some (afterCaret.trimStart_append_of_stops h)

theorem scanMinus_append (negative : Bool) {rest : List Char} (h : '-' ∉ rest.head?) :
    scanMinus (minusChars negative ++ rest) = (negative, rest) := by
  cases negative with
  | true => rfl
  | false =>
    show scanMinus rest = (false, rest)
    unfold scanMinus
    split
    · exact absurd rfl h
    · rfl

/-- What the scanner makes of a term, once the operator and the sign are read. -/
theorem scan?_of_signs (w : WrittenTerm) {cs r₁ r₂ rest : List Char} {operator : Option Operator}
    {signed : Bool} (h₁ : scanOperator (trimStart cs) = (operator, r₁))
    (h₂ : scanMinus (trimStart r₁) = (signed, r₂)) (h₃ : trimStart r₂ = w.body ++ rest)
    (hrest : Stops isDigit rest) :
    scan? cs = some (⟨operator, signed, w.numeral, w.exponentNegative, w.exponentDigits.chars,
      cs.take (cs.length - (trimStart rest).length)⟩, trimStart rest) := by
  obtain ⟨d, ds, hds, hd⟩ := w.exponentDigits.exists_cons
  let digits := w.exponentDigits.chars ++ (w.trailing.chars ++ rest)
  let exponent := minusChars w.exponentNegative ++ digits
  let power := powerChars w.capital w.afterLetter w.afterCaret ++ exponent
  have hbody : w.body ++ rest = factorChars w.factor ++ power := by
    simp only [WrittenTerm.body, WrittenTerm.exponentChars, power, exponent, digits,
      List.append_assoc]
  have hcoefficient : scanCoefficient? (w.body ++ rest) = some (w.numeral, power) := by
    rw [hbody]
    exact scanCoefficient?_append _ (stops_cons (isBlank_letterChar _) _)
      (stops_cons (isDigit_letterChar _) _)
  have hpower : scanPower? power = some exponent := by
    refine scanPower?_append _ _ _ ?_
    cases hn : w.exponentNegative with
    | true => simp only [exponent, hn]; exact stops_cons (by decide) _
    | false => simp only [exponent, digits, hn, hds]; exact stops_cons (isBlank_of_isDigit hd) _
  have hexponent : scanMinus exponent = (w.exponentNegative, digits) := by
    refine scanMinus_append _ fun h => ?_
    simp only [digits, hds] at h
    obtain rfl := Option.some.inj h
    exact absurd hd (by decide)
  obtain ⟨hdrop, htake⟩ := dropWhile_append_of_stops w.exponentDigits.digit
    (w.trailing.stops_append hrest)
  simp only [scan?, h₁, h₂, h₃, hcoefficient, Option.bind_eq_bind, Option.bind_some, hpower,
    hexponent, digits, htake, hdrop, if_neg w.exponentDigits.ne_nil, w.trailing.trimStart_append]

theorem scanOperator_of_head {cs : List Char} (hp : '+' ∉ cs.head?) (hm : '-' ∉ cs.head?) :
    scanOperator cs = (none, cs) := by
  unfold scanOperator
  split
  · exact absurd rfl hp
  · exact absurd rfl hm
  · rfl

/-- Blanks on either side of a sign do not matter. -/
theorem scanMinus_between_blanks (b₁ : BlankRun) (signed : Bool) (b₂ : BlankRun) {y : List Char}
    (hb : Stops isBlank y) (hm : '-' ∉ y.head?) :
    ∃ r, scanMinus (trimStart (b₁.chars ++ (minusChars signed ++ (b₂.chars ++ y)))) = (signed, r) ∧
      trimStart r = y := by
  have hy : trimStart (b₂.chars ++ y) = y := b₂.trimStart_append_of_stops hb
  cases signed with
  | true =>
    have hs : trimStart (b₁.chars ++ '-' :: (b₂.chars ++ y)) = '-' :: (b₂.chars ++ y) :=
      b₁.trimStart_append_of_stops (stops_cons (by decide) _)
    exact ⟨_, congrArg scanMinus hs, hy⟩
  | false =>
    have hs : trimStart (b₁.chars ++ (b₂.chars ++ y)) = y := by rw [b₁.trimStart_append, hy]
    exact ⟨y, (congrArg scanMinus hs).trans (scanMinus_append false hm), (dropWhile_of_stops hb).1⟩

/-- The scanner reads an operator and a sign. A lone minus is the operator of the token, whatever
it is of the term, so only the number of minus signs is the same. -/
theorem scanSigns_append (operator : Option Operator) (b₁ : BlankRun) (signed : Bool)
    (b₂ : BlankRun) {y : List Char} (hb : Stops isBlank y) (hp : '+' ∉ y.head?) (hm : '-' ∉ y.head?) :
    ∃ operator' signed' r₁ r₂,
      scanOperator (trimStart (operatorChars operator ++
        (b₁.chars ++ (minusChars signed ++ (b₂.chars ++ y))))) = (operator', r₁) ∧
      scanMinus (trimStart r₁) = (signed', r₂) ∧ trimStart r₂ = y ∧
      minusCount operator' signed' % 2 = minusCount operator signed % 2 ∧
      (operator.isSome → operator'.isSome) := by
  have hy : trimStart y = y := (dropWhile_of_stops hb).1
  cases operator with
  | some o =>
    obtain ⟨r, h₂, h₃⟩ := scanMinus_between_blanks b₁ signed b₂ hb hm
    refine ⟨some o, signed, _, r, ?_, h₂, h₃, rfl, id⟩
    cases o <;> rfl
  | none =>
    cases signed with
    | true =>
      have hs : trimStart (b₁.chars ++ '-' :: (b₂.chars ++ y)) = '-' :: (b₂.chars ++ y) :=
        b₁.trimStart_append_of_stops (stops_cons (by decide) _)
      refine ⟨some .minus, false, b₂.chars ++ y, y, congrArg scanOperator hs, ?_, hy, rfl,
        fun _ => rfl⟩
      rw [b₂.trimStart_append_of_stops hb]
      exact scanMinus_append false hm
    | false =>
      have hs : trimStart (b₁.chars ++ (b₂.chars ++ y)) = y := by
        rw [b₁.trimStart_append, b₂.trimStart_append_of_stops hb]
      refine ⟨none, false, y, y, (congrArg scanOperator hs).trans (scanOperator_of_head hp hm), ?_,
        hy, rfl, id⟩
      rw [hy]
      exact scanMinus_append false hm

/-- The scanner takes all of a written term, and the blanks that follow it. -/
theorem scan?_chars_append (w : WrittenTerm) {rest : List Char} (hrest : Stops isDigit rest) :
    ∃ t, scan? (w.chars ++ rest) = some (t, trimStart rest) ∧ t.Reads w ∧
      (w.operator.isSome → t.operator.isSome) := by
  have start : trimStart (w.chars ++ rest) = trimStart (operatorChars w.operator ++
      (w.afterOperator.chars ++
        (minusChars w.signed ++ (w.afterSign.chars ++ (w.body ++ rest))))) := by
    rw [WrittenTerm.chars, List.append_assoc, w.margin.trimStart_append]
    simp only [WrittenTerm.charsFromOperator, List.append_assoc]
  obtain ⟨operator, signed, r₁, r₂, h₁, h₂, h₃, hc, ho⟩ := scanSigns_append w.operator
    w.afterOperator w.signed w.afterSign (w.stops_body rest)
    (w.not_mem_head?_body (by decide) (by decide) rest)
    (w.not_mem_head?_body (by decide) (by decide) rest)
  rw [← start] at h₁
  refine ⟨_, scan?_of_signs w h₁ h₂ h₃ hrest, ⟨hc, rfl, rfl, rfl, ?_⟩, ho⟩
  have ht : w.chars ++ rest = (w.chars ++ (BlankRun.leading rest).chars) ++ trimStart rest := by
    rw [List.append_assoc, BlankRun.leading_append]
  dsimp only
  rw [ht, List.length_append, Nat.add_sub_cancel, List.take_left, BlankRun.trim_append_chars]

/-! ## Whole sides -/

theorem Reads.of_withoutMargin {t : Token} {w : WrittenTerm} (h : t.Reads w.withoutMargin) :
    t.Reads w :=
  ⟨h.minuses, h.coefficient, h.exponentNegative, h.exponentDigits,
    h.text.trans (w.margin.trim_chars_append w.charsFromOperator).symm⟩

theorem tokensUpTo_of_scan? {n : Nat} {first : Bool} {cs rest : List Char} {t : Token}
    (h : scan? cs = some (t, rest)) (ho : first = false → t.operator.isSome) :
    tokensUpTo (n + 1) first cs = (tokensUpTo n false rest).map (t :: ·) := by
  have hlt := (scan?_suffix h).2.1
  cases cs with
  | nil => contradiction
  | cons c cs =>
    have hf : (!first && t.operator.isNone) = false := by
      cases first with
      | true => rfl
      | false =>
        obtain ⟨o, ho⟩ := Option.isSome_iff_exists.1 (ho rfl)
        rw [ho]
        rfl
    rw [tokensUpTo.eq_3 _ _ _ (List.cons_ne_nil _ _), h]
    simp only [hf, Bool.false_eq_true, if_false]

/-- Terms that are written one after another are read one after another. The induction is on the
later terms: the scanner leaves the first of them without its margin. -/
theorem tokensUpTo_flatMap_chars (later : List WrittenTerm) (w : WrittenTerm) {first : Bool}
    {n : Nat} (hw : first = false → w.operator.isSome) (hlater : ∀ v ∈ later, v.operator.isSome)
    (hn : ((w :: later).flatMap WrittenTerm.chars).length ≤ n) :
    ∃ ts, tokensUpTo n first ((w :: later).flatMap WrittenTerm.chars) = .ok ts ∧
      List.Forall₂ Reads ts (w :: later) := by
  induction later generalizing w first n with
  | nil =>
    obtain ⟨t, ht, hr, ho⟩ := scan?_chars_append w (stops_flatMap_chars hlater)
    have hlt := (scan?_suffix ht).2.1
    rw [List.flatMap_cons] at hn ⊢
    obtain ⟨m, rfl⟩ : ∃ m, n = m + 1 := ⟨n - 1, by omega⟩
    refine ⟨[t], ?_, List.Forall₂.cons hr .nil⟩
    rw [tokensUpTo_of_scan? ht fun hf => ho (hw hf)]
    cases m <;> rfl
  | cons v later ih =>
    obtain ⟨t, ht, hr, ho⟩ := scan?_chars_append w (stops_flatMap_chars hlater)
    have hlt := (scan?_suffix ht).2.1
    have hv := hlater v List.mem_cons_self
    rw [List.flatMap_cons] at hn ⊢
    obtain ⟨m, rfl⟩ : ∃ m, n = m + 1 := ⟨n - 1, by omega⟩
    have hrest : trimStart ((v :: later).flatMap WrittenTerm.chars) =
        (v.withoutMargin :: later).flatMap WrittenTerm.chars := by
      rw [List.flatMap_cons, v.trimStart_chars_append hv, List.flatMap_cons]
    rw [hrest] at ht hlt
    have hlater : ∃ ts, tokensUpTo m false ((v.withoutMargin :: later).flatMap WrittenTerm.chars) =
        .ok ts ∧ List.Forall₂ Reads ts (v.withoutMargin :: later) :=
      ih v.withoutMargin (fun _ => hv) (fun u hu => hlater u (List.mem_cons_of_mem _ hu)) (by omega)
    obtain ⟨ts, hts, hreads⟩ := hlater
    cases hreads with
    | cons hu hus =>
      refine ⟨_, ?_, List.Forall₂.cons hr (List.Forall₂.cons hu.of_withoutMargin hus)⟩
      rw [tokensUpTo_of_scan? ht fun hf => ho (hw hf), hts]
      rfl

theorem exists_of_tokensUpTo_cons {n : Nat} {first : Bool} {c : Char} {cs : List Char}
    {ts : List Token} (h : tokensUpTo (n + 1) first (c :: cs) = .ok ts) :
    ∃ t rest us, scan? (c :: cs) = some (t, rest) ∧ (first = false → t.operator.isSome) ∧
      tokensUpTo n false rest = .ok us ∧ ts = t :: us := by
  rw [tokensUpTo.eq_3 _ _ _ (List.cons_ne_nil _ _)] at h
  split at h
  · contradiction
  rename_i t rest hs
  split at h
  · contradiction
  rename_i ho
  cases hu : tokensUpTo n false rest with
  | error e => rw [hu] at h; contradiction
  | ok us =>
    rw [hu] at h
    refine ⟨t, rest, us, hs, fun hf => ?_, hu, (Except.ok.inj h).symm⟩
    rw [hf] at ho
    cases hop : t.operator with
    | none => exact absurd (by rw [hop]; rfl) ho
    | some o => rfl

/-- What is read is written: some terms, of which only the first may stand without an operator. -/
theorem exists_written_of_tokensUpTo {n : Nat} {first : Bool} {cs : List Char} {ts : List Token}
    (h : tokensUpTo n first cs = .ok ts) :
    ∃ ws : List WrittenTerm, ws.flatMap WrittenTerm.chars = cs ∧
      ∀ w ∈ if first then ws.tail else ws, w.operator.isSome := by
  induction n generalizing first cs ts with
  | zero =>
    cases cs with
    | nil => exact ⟨[], rfl, by simp⟩
    | cons c cs => contradiction
  | succ n ih =>
    cases cs with
    | nil => exact ⟨[], rfl, by simp⟩
    | cons c cs =>
      obtain ⟨t, rest, us, hs, ho, hu, -⟩ := exists_of_tokensUpTo_cons h
      obtain ⟨w, hw, hop, -⟩ := exists_written_of_scan? hs
      obtain ⟨ws, hws, hlater⟩ := ih hu
      refine ⟨w :: ws, by rw [List.flatMap_cons, hws, hw], ?_⟩
      cases first with
      | true => exact hlater
      | false =>
        intro v hv
        rcases List.mem_cons.1 hv with rfl | hv
        · rw [hop]; exact ho rfl
        · exact hlater v hv

theorem tokensUpTo_eq_error {n : Nat} {first : Bool} {cs : List Char} {e : EquationError}
    (h : tokensUpTo n first cs = .error e) : ∃ rest, e = .termFormat rest := by
  induction n generalizing first cs with
  | zero =>
    cases cs with
    | nil => contradiction
    | cons c cs => exact ⟨_, (Except.error.inj h).symm⟩
  | succ n ih =>
    cases cs with
    | nil => contradiction
    | cons c cs =>
      rw [tokensUpTo.eq_3 _ _ _ (List.cons_ne_nil _ _)] at h
      split at h
      · exact ⟨_, (Except.error.inj h).symm⟩
      split at h
      · exact ⟨_, (Except.error.inj h).symm⟩
      rename_i rest _ _
      cases hu : tokensUpTo n false rest with
      | error e' =>
        rw [hu] at h
        obtain rfl := Except.error.inj h
        exact ih hu
      | ok us => rw [hu] at h; contradiction

theorem tokens_of_not_all {side : List Char} (h : ¬ ∀ c ∈ side, isBlank c) :
    tokens side = tokensUpTo side.length true side := by
  rw [tokens, if_neg (by simpa using h)]

theorem tokens_of_all {side : List Char} (h : ∀ c ∈ side, isBlank c) :
    tokens side = .error (.emptySide side) := if_pos (List.all_eq_true.2 h)

theorem not_all_blank (s : WrittenSide) : ¬ ∀ c ∈ s.chars, isBlank c := by
  intro h
  have := h _ s.letterChar_mem
  rw [isBlank_letterChar] at this
  contradiction

/-- A written side is read, term by term. -/
theorem tokens_chars (s : WrittenSide) :
    ∃ ts, tokens s.chars = .ok ts ∧ List.Forall₂ Reads ts s.terms := by
  rw [tokens_of_not_all (not_all_blank s)]
  exact tokensUpTo_flatMap_chars s.later s.first (by simp) s.introduced (Nat.le_refl _)

theorem grammatical_of_tokens {side : List Char} {ts : List Token} (h : tokens side = .ok ts) :
    Grammatical side := by
  by_cases hb : ∀ c ∈ side, isBlank c
  · rw [tokens_of_all hb] at h
    contradiction
  rw [tokens_of_not_all hb] at h
  obtain ⟨ws, rfl, hlater⟩ := exists_written_of_tokensUpTo h
  cases ws with
  | nil => exact absurd (by simp) hb
  | cons w ws => exact ⟨⟨w, ws, hlater⟩, rfl⟩

/-- A side that is not read is blank, or at some place no term goes on. -/
theorem tokens_eq_error {side : List Char} {e : EquationError} (h : tokens side = .error e) :
    ((∀ c ∈ side, isBlank c) ∧ e = .emptySide side) ∨
      ((¬ ∀ c ∈ side, isBlank c) ∧ ∃ rest, e = .termFormat rest) := by
  by_cases hb : ∀ c ∈ side, isBlank c
  · rw [tokens_of_all hb] at h
    exact Or.inl ⟨hb, (Except.error.inj h).symm⟩
  · rw [tokens_of_not_all hb] at h
    exact Or.inr ⟨hb, tokensUpTo_eq_error h⟩

/-! ## Tilings -/

/-- From a place on, the texts of tokens lie side by side in a text, up to its end. -/
def Tiles (side : List Char) : Nat → List Token → Prop
  | start, [] => start = side.length
  | start, t :: ts =>
    (side.drop start).take t.text.length = t.text ∧ Tiles side (start + t.text.length) ts

theorem tiles_flatMap_text (before : List Char) (ts : List Token) :
    Tiles (before ++ ts.flatMap text) before.length ts := by
  induction ts generalizing before with
  | nil => simp [Tiles]
  | cons t ts ih =>
    rw [List.flatMap_cons]
    refine ⟨by rw [List.drop_left, List.take_left], ?_⟩
    rw [← List.append_assoc, ← List.length_append]
    exact ih (before ++ t.text)

/-- The scanner accepts the sides of the grammar and no others. The texts of the terms that it reads
tile the side, and every way to write the side says the same, term by term. A side that it refuses
is blank or has no term at some place. -/
theorem tokens_agree_with_grammar (side : List Char) :
    ((∃ ts, tokens side = .ok ts) ↔ ∃ s : WrittenSide, s.chars = side) ∧
    (∀ ts, tokens side = .ok ts → Tiles side 0 ts ∧
      ∀ s : WrittenSide, s.chars = side → ts.map reading = s.terms.map WrittenTerm.reading) ∧
    ((∀ c ∈ side, isBlank c) → tokens side = .error (.emptySide side)) ∧
    ∀ e, tokens side = .error e →
      ((∀ c ∈ side, isBlank c) ∧ e = .emptySide side) ∨
        ((¬ ∀ c ∈ side, isBlank c) ∧ ∃ rest, e = .termFormat rest) := by
  refine ⟨⟨fun ⟨ts, h⟩ => grammatical_of_tokens h, ?_⟩, fun ts h => ⟨?_, ?_⟩, tokens_of_all,
    fun e h => tokens_eq_error h⟩
  · rintro ⟨s, rfl⟩
    obtain ⟨ts, h, -⟩ := tokens_chars s
    exact ⟨ts, h⟩
  · have := tiles_flatMap_text [] ts
    rwa [flatMap_text_of_tokens h] at this
  · rintro s rfl
    obtain ⟨us, hu, hreads⟩ := tokens_chars s
    obtain rfl : us = ts := Except.ok.inj (hu.symm.trans h)
    exact List.forall₂_eq_eq_eq ▸ List.forall₂_map_right_iff.2
      (List.forall₂_map_left_iff.2 (hreads.imp fun _ _ h => h.reading))

/-- A side of two terms, the first with a minus; a blank side; and a constant alone. -/
theorem tokens_of_three_sides :
    (∃ ts, tokens ['-', 'x', '^', '1', '+', 'x', '^', '٣'] = .ok ts) ∧
      tokens [' '] = .error (.emptySide [' ']) ∧ ¬ Grammatical ['4'] := by
  let first : WrittenTerm := .compact (some .minus) none false (.single '1' (by decide))
  let second : WrittenTerm := .compact (some .plus) none false (.single '٣' (by decide))
  have introduced : ∀ w ∈ [second], w.operator.isSome := List.forall_mem_singleton.2 rfl
  refine ⟨(tokens_agree_with_grammar _).1.2 ⟨⟨first, [second], introduced⟩, rfl⟩,
    (tokens_agree_with_grammar _).2.2.1 (List.forall_mem_singleton.2 (by decide)), fun h => ?_⟩
  obtain ⟨ts, hts⟩ := (tokens_agree_with_grammar ['4']).1.2 h
  rw [show tokens ['4'] = .error (.termFormat ['4']) from rfl] at hts
  contradiction

end Token

end PolySolve
