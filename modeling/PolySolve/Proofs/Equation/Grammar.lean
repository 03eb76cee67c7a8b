import PolySolve.Equation.Reading
import PolySolve.Proofs.Text.Runs

/-!
# The grammar of a side

What may be written as a side of an equation, said without a scanner: a
`WrittenTerm` is one way to write a term, with all its blanks, and a
`WrittenSide` is a first term and later ones, each introduced by an operator.
One text may be written in several ways: blanks between two terms can belong to
either, and a lone leading minus is an operator or a sign.

* `WrittenTerm.chars`, `WrittenSide.chars`: the text that is written;
* `WrittenTerm.reading`: what of a term does not depend on how it is split up;
* `WrittenTerm.body_head`: what follows the signs starts with a digit or a letter.
-/

namespace PolySolve

open Text

/-! ## Runs of characters -/

/-- Blanks, or nothing. -/
structure BlankRun where
  chars : List Char
  blank : ∀ c ∈ chars, isBlank c

/-- One digit or more, of any scripts. -/
structure DigitRun where
  chars : List Char
  ne_nil : chars ≠ []
  digit : ∀ c ∈ chars, isDigit c

theorem ne_of_isDigit {c d : Char} (h : isDigit c) (hd : isDigit d = false) : c ≠ d := by
  rintro rfl
  rw [hd] at h
  contradiction

namespace BlankRun

def empty : BlankRun := ⟨[], fun _ h => absurd h List.not_mem_nil⟩

/-- The blanks at the front of a text. -/
def leading (cs : List Char) : BlankRun where
  chars := cs.takeWhile isBlank
  blank := List.all_eq_true.1 List.all_takeWhile

theorem leading_append (cs : List Char) : (leading cs).chars ++ trimStart cs = cs :=
  List.takeWhile_append_dropWhile

theorem trimStart_append (b : BlankRun) (cs : List Char) :
    trimStart (b.chars ++ cs) = trimStart cs := by
  rw [trimStart, List.dropWhile_append_of_pos b.blank, trimStart]

theorem trimStart_append_of_stops (b : BlankRun) {cs : List Char} (h : Stops isBlank cs) :
    trimStart (b.chars ++ cs) = cs :=
  (dropWhile_append_of_stops b.blank h).1

theorem stops_append (b : BlankRun) {cs : List Char} (h : Stops isDigit cs) :
    Stops isDigit (b.chars ++ cs) :=
  PolySolve.stops_append (fun c hc => isDigit_of_isBlank (b.blank c hc)) h

/-- Blanks around a text do not change what is left by trimming. -/
theorem trim_append_chars (b : BlankRun) (cs : List Char) : trim (cs ++ b.chars) = trim cs := by
  have hb : b.chars.dropWhile isBlank = [] := dropWhile_eq_nil_iff.2 b.blank
  unfold trim trimStart
  rw [List.dropWhile_append]
  split
  · rename_i h
    rw [List.isEmpty_iff.1 h, hb]
  · rw [trimEnd, List.reverse_append, List.dropWhile_append_of_pos, trimEnd]
    exact fun c hc => b.blank c (List.mem_reverse.1 hc)

theorem trim_chars_append (b : BlankRun) (cs : List Char) : trim (b.chars ++ cs) = trim cs := by
  rw [trim, b.trimStart_append, trim]

end BlankRun

namespace DigitRun

theorem exists_cons (d : DigitRun) : ∃ c cs, d.chars = c :: cs ∧ isDigit c := by
  obtain ⟨c, cs, h⟩ := List.exists_cons_of_ne_nil d.ne_nil
  exact ⟨c, cs, h, d.digit c (h ▸ List.mem_cons_self)⟩

def single (c : Char) (h : isDigit c) : DigitRun := ⟨[c], by simp, by simpa using h⟩

/-- The digits at the front of a text, if there are any. -/
def leading (cs : List Char) (h : cs.takeWhile isDigit ≠ []) : DigitRun where
  chars := cs.takeWhile isDigit
  ne_nil := h
  digit := List.all_eq_true.1 List.all_takeWhile

end DigitRun

/-! ## Numbers and terms -/

/-- Digits, perhaps with a point and more digits. -/
structure WrittenNumber where
  whole : DigitRun
  fraction : Option DigitRun

namespace WrittenNumber

def fractionDigits (n : WrittenNumber) : List Char :=
  match n.fraction with
  | none => []
  | some f => f.chars

def numeral (n : WrittenNumber) : Numeral := ⟨n.whole.chars, n.fractionDigits⟩

def chars (n : WrittenNumber) : List Char :=
  match n.fraction with
  | none => n.whole.chars
  | some f => n.whole.chars ++ '.' :: f.chars

theorem chars_numeral (n : WrittenNumber) : n.numeral.chars = n.chars := by
  obtain ⟨whole, fraction⟩ := n
  cases fraction with
  | none => rfl
  | some f => exact if_neg f.ne_nil

end WrittenNumber

/-- A number and the `*` after it. -/
structure WrittenFactor where
  number : WrittenNumber
  beforeStar : BlankRun
  afterStar : BlankRun

def WrittenFactor.chars (f : WrittenFactor) : List Char :=
  f.number.chars ++ (f.beforeStar.chars ++ '*' :: f.afterStar.chars)

/-- One way to write a term. -/
structure WrittenTerm where
  margin : BlankRun
  operator : Option Operator
  afterOperator : BlankRun
  /-- There is a minus sign besides the operator. -/
  signed : Bool
  afterSign : BlankRun
  factor : Option WrittenFactor
  /-- The letter is `X` and not `x`. -/
  capital : Bool
  afterLetter : BlankRun
  afterCaret : BlankRun
  exponentNegative : Bool
  exponentDigits : DigitRun
  trailing : BlankRun

/-- What of a term does not depend on how it is split up. -/
structure TermReading where
  /-- The minus signs in front, counted modulo two. -/
  parity : Nat
  coefficient : Option (List Char)
  exponent : List Char
  deriving DecidableEq

/-- The minus signs among an operator and a sign. -/
def minusCount (operator : Option Operator) (signed : Bool) : Nat :=
  (if operator = some .minus then 1 else 0) + if signed then 1 else 0

def minusChars (present : Bool) : List Char := if present then ['-'] else []

def operatorChars (operator : Option Operator) : List Char :=
  match operator with
  | none => []
  | some o => [o.char]

def factorChars (factor : Option WrittenFactor) : List Char :=
  match factor with
  | none => []
  | some f => f.chars

def letterChar (capital : Bool) : Char := if capital then 'X' else 'x'

/-- The letter and the caret, with blanks after each. -/
def powerChars (capital : Bool) (afterLetter afterCaret : BlankRun) : List Char :=
  letterChar capital :: (afterLetter.chars ++ '^' :: afterCaret.chars)

theorem isBlank_letterChar (capital : Bool) : isBlank (letterChar capital) = false := by
  cases capital <;> decide

theorem isDigit_letterChar (capital : Bool) : isDigit (letterChar capital) = false := by
  cases capital <;> decide

namespace WrittenTerm

variable (w : WrittenTerm)

def exponentChars : List Char := minusChars w.exponentNegative ++ w.exponentDigits.chars

/-- What follows the operator and the sign. -/
def body : List Char :=
  factorChars w.factor ++ (powerChars w.capital w.afterLetter w.afterCaret ++
    (w.exponentChars ++ w.trailing.chars))

/-- What follows the margin. -/
def charsFromOperator : List Char :=
  operatorChars w.operator ++
    (w.afterOperator.chars ++ (minusChars w.signed ++ (w.afterSign.chars ++ w.body)))

def chars : List Char := w.margin.chars ++ w.charsFromOperator

def minuses : Nat := minusCount w.operator w.signed

def numeral : Option Numeral := w.factor.map (·.number.numeral)

def reading : TermReading where
  parity := w.minuses % 2
  coefficient := w.factor.map (·.number.chars)
  exponent := w.exponentChars

/-- The same term without the blanks in front. -/
def withoutMargin : WrittenTerm := { w with margin := .empty }

/-- A term that is written without blanks. -/
def compact (operator : Option Operator) (factor : Option WrittenFactor) (exponentNegative : Bool)
    (exponentDigits : DigitRun) : WrittenTerm where
  margin := .empty
  operator := operator
  afterOperator := .empty
  signed := false
  afterSign := .empty
  factor := factor
  capital := false
  afterLetter := .empty
  afterCaret := .empty
  exponentNegative := exponentNegative
  exponentDigits := exponentDigits
  trailing := .empty

/-- What follows the signs starts with a digit or with the letter. -/
theorem body_head : ∃ c cs, w.body = c :: cs ∧ (isDigit c ∨ c = letterChar w.capital) := by
  unfold body
  cases w.factor with
  | none => exact ⟨_, _, rfl, Or.inr rfl⟩
  | some f =>
    obtain ⟨c, cs, h, hd⟩ := f.number.whole.exists_cons
    unfold factorChars WrittenFactor.chars WrittenNumber.chars
    dsimp only
    split <;> exact ⟨c, _, by rw [h]; rfl, Or.inl hd⟩

theorem stops_body (rest : List Char) : Stops isBlank (w.body ++ rest) := by
  obtain ⟨c, cs, h, hc⟩ := w.body_head
  rw [h]
  refine stops_cons ?_ _
  rcases hc with hc | rfl
  · exact isBlank_of_isDigit hc
  · exact isBlank_letterChar _

theorem not_mem_head?_body {d : Char} (hd : isDigit d = false)
    (hx : ∀ capital, d ≠ letterChar capital) (rest : List Char) : d ∉ (w.body ++ rest).head? := by
  obtain ⟨c, cs, h, hc⟩ := w.body_head
  rw [h]
  intro hm
  obtain rfl : c = d := Option.some.inj hm
  rcases hc with hc | hc
  · exact ne_of_isDigit hc hd rfl
  · exact hx _ hc

theorem stops_charsFromOperator (h : w.operator.isSome) (rest : List Char) :
    Stops isBlank (w.charsFromOperator ++ rest) ∧ Stops isDigit (w.charsFromOperator ++ rest) := by
  obtain ⟨o, ho⟩ := Option.isSome_iff_exists.1 h
  unfold charsFromOperator
  rw [ho]
  cases o <;> exact ⟨stops_cons (by decide) _, stops_cons (by decide) _⟩

theorem chars_withoutMargin : w.withoutMargin.chars = w.charsFromOperator := rfl

theorem trimStart_chars_append (h : w.operator.isSome) (rest : List Char) :
    trimStart (w.chars ++ rest) = w.withoutMargin.chars ++ rest := by
  rw [chars, List.append_assoc, w.margin.trimStart_append_of_stops
    (w.stops_charsFromOperator h rest).1, chars_withoutMargin]

theorem stops_chars (h : w.operator.isSome) (rest : List Char) :
    Stops isDigit (w.chars ++ rest) := by
  rw [chars, List.append_assoc]
  exact w.margin.stops_append (w.stops_charsFromOperator h rest).2

end WrittenTerm

/-! ## Sides -/

/-- One way to write a side. -/
structure WrittenSide where
  first : WrittenTerm
  later : List WrittenTerm
  introduced : ∀ w ∈ later, w.operator.isSome

namespace WrittenSide

variable (s : WrittenSide)

def terms : List WrittenTerm := s.first :: s.later

def chars : List Char := s.terms.flatMap WrittenTerm.chars

theorem letterChar_mem : letterChar s.first.capital ∈ s.chars := by
  simp [chars, terms, WrittenTerm.chars, WrittenTerm.charsFromOperator, WrittenTerm.body,
    powerChars]

end WrittenSide

/-- The later terms of a side start with no digit. -/
theorem stops_flatMap_chars {ws : List WrittenTerm} (h : ∀ w ∈ ws, w.operator.isSome) :
    Stops isDigit (ws.flatMap WrittenTerm.chars) := by
  cases ws with
  | nil => intro c hc; contradiction
  | cons w ws =>
    rw [List.flatMap_cons]
    exact w.stops_chars (h w List.mem_cons_self) _

/-- A text is a side in the grammar. -/
def Grammatical (side : List Char) : Prop := ∃ s : WrittenSide, s.chars = side

end PolySolve
