import Mathlib.Algebra.Ring.Parity
import PolySolve.Proofs.Binary64.Nearest
import PolySolve.Proofs.Decimal.Digits
import PolySolve.Proofs.Equation.Scanning

/-!
# The meaning of a side

A written term stands for a number and an exponent, and a side is read as the
terms that its written terms denote: each number is rounded once, and each
minus in front of it changes the sign.

* `WrittenNumber.toRat_ofDigits`: the decimal that is rounded is the number
  that is written;
* `Reads.denotes_toTerm`, `Reads.toTerm_eq_error`: one term;
* `sideTerms_chars`: a side without a term out of range;
* `sideTerms_chars_eq_error`: the first term out of range is reported.
-/

namespace PolySolve

open Binary64 Text

/-! ## Meanings -/

namespace WrittenNumber

/-- The number that is written. -/
def value (n : WrittenNumber) : ℚ :=
  digitsValue n.whole.chars + digitsValue n.fractionDigits / 10 ^ n.fractionDigits.length

theorem toRat_ofDigits (n : WrittenNumber) :
    (Decimal.ofDigits n.whole.chars n.fractionDigits 0).toRat = n.value := by
  rw [Decimal.toRat, Decimal.ofDigits, value, digitsValue_append, zero_sub, zpow_neg, zpow_natCast]
  push_cast
  field_simp

end WrittenNumber

namespace WrittenTerm

variable (w : WrittenTerm)

/-- A number is rounded to a value; a term without a number has one. -/
def Magnitude (x : Binary64) : Prop :=
  match w.factor with
  | none => x = 1
  | some f => Rounds f.number.value x

def exponentValue : Int :=
  if w.exponentNegative then -(digitsValue w.exponentDigits.chars : Int)
  else digitsValue w.exponentDigits.chars

/-- The number rounds to infinity, or the exponent is below zero or too long. -/
def OutOfRange : Prop :=
  w.Magnitude (.infinite false) ∨ w.exponentValue < 0 ∨
    maxExponentDigits < w.exponentDigits.chars.length

/-- What the number is rounded to. -/
def rounded : Binary64 :=
  match w.factor with
  | none => 1
  | some f => (Decimal.ofDigits f.number.whole.chars f.number.fractionDigits 0).toBinary64 false

/-- The term that is written; each minus changes the sign. -/
structure Denotes (t : Term) : Prop where
  exponent : t.exponent = w.exponentValue
  coefficient : ∃ x, w.Magnitude x ∧ t.coefficient = Neg.neg^[w.minuses] x

variable {w}

theorem Magnitude.unique {x y : Binary64} (hx : w.Magnitude x) (hy : w.Magnitude y) : x = y := by
  unfold Magnitude at hx hy
  cases hf : w.factor with
  | none =>
    rw [hf] at hx hy
    exact hx.trans hy.symm
  | some f =>
    rw [hf] at hx hy
    exact Rounds.unique hx hy

theorem Magnitude.isFinite_or {x : Binary64} (h : w.Magnitude x) :
    x.isFinite ∨ x = .infinite false := by
  unfold Magnitude at h
  split at h
  · rw [h]
    exact Or.inl isFinite_one
  · exact h.isFinite_or

theorem magnitude_rounded (w : WrittenTerm) : w.Magnitude w.rounded := by
  rw [rounded, Magnitude]
  cases w.factor with
  | none => rfl
  | some f =>
    have := (Decimal.ofDigits f.number.whole.chars f.number.fractionDigits 0).rounds_toBinary64
    rwa [f.number.toRat_ofDigits] at this

theorem magnitude_infinite_iff : w.Magnitude (.infinite false) ↔ w.rounded.isFinite = false := by
  refine ⟨fun h => ?_, fun h => ?_⟩
  · rw [w.magnitude_rounded.unique h]
    rfl
  · have hr := w.magnitude_rounded
    have he : w.rounded = .infinite false := hr.isFinite_or.resolve_left (by rw [h]; decide)
    rwa [he] at hr

/-- A written term stands for one term and no other. -/
theorem Denotes.unique {t u : Term} (ht : w.Denotes t) (hu : w.Denotes u) : t = u := by
  obtain ⟨x, hx, ex⟩ := ht.coefficient
  obtain ⟨y, hy, ey⟩ := hu.coefficient
  obtain rfl := hx.unique hy
  obtain ⟨c, e⟩ := t
  obtain ⟨d, f⟩ := u
  obtain rfl : e = f := ht.exponent.trans hu.exponent.symm
  obtain rfl : c = d := ex.trans ey.symm
  rfl

instance : Decidable w.OutOfRange :=
  decidable_of_iff (w.rounded.isFinite = false ∨ w.exponentValue < 0 ∨
    maxExponentDigits < w.exponentDigits.chars.length) (by rw [← magnitude_infinite_iff]; rfl)

end WrittenTerm

theorem eq_of_denotes {ws : List WrittenTerm} {ts us : List Term}
    (ht : List.Forall₂ WrittenTerm.Denotes ws ts) (hu : List.Forall₂ WrittenTerm.Denotes ws us) :
    ts = us := by
  induction ht generalizing us with
  | nil => cases hu; rfl
  | cons hd _ ih =>
    cases hu with
    | cons hd' hds' => rw [hd.unique hd', ih hds']

/-! ## One term -/

namespace Token

variable {t : Token} {w : WrittenTerm}

theorem Reads.magnitude (h : t.Reads w) : t.magnitude = w.rounded := by
  rw [Token.magnitude, h.coefficient, WrittenTerm.numeral, WrittenTerm.rounded]
  cases w.factor <;> rfl

theorem Reads.exponent? (h : t.Reads w) :
    t.exponent? =
      if maxExponentDigits < w.exponentDigits.chars.length then none else some w.exponentValue := by
  rw [Token.exponent?, h.exponentDigits, h.exponentNegative, WrittenTerm.exponentValue]
  split
  · rfl
  · cases w.exponentNegative <;> rfl

/-- An operator and a sign that are both minus cancel. -/
theorem Reads.signed_eq (h : t.Reads w) (x : Binary64) :
    (if t.isNegative then -x else x) = Neg.neg^[w.minuses] x := by
  have involutive : Function.Involutive (Neg.neg : Binary64 → Binary64) := Binary64.neg_neg
  have parity : t.isNegative = (minusCount t.operator t.signed % 2 == 1) := by
    rw [Token.isNegative]
    rcases t.operator with _ | _ | _ <;> cases t.signed <;> rfl
  rw [parity, h.minuses]
  rcases Nat.even_or_odd w.minuses with he | ho
  · rw [involutive.iterate_even he, Nat.even_iff.1 he]
    rfl
  · rw [involutive.iterate_odd ho, Nat.odd_iff.1 ho]
    rfl

/-- A token is refused if it has a coefficient or an exponent out of range. -/
theorem Reads.toTerm_eq_error (h : t.Reads w) (hw : w.OutOfRange) :
    t.toTerm = .error (.termRange (trim w.chars)) := by
  rw [toTerm, h.exponent?, h.text]
  split
  · rfl
  rename_i e he
  split at he
  · contradiction
  rename_i hlong
  obtain rfl := Option.some.inj he
  refine if_pos ?_
  rw [Bool.or_eq_true, decide_eq_true_eq, h.magnitude]
  rcases hw with hinf | hneg | hlen
  · rw [WrittenTerm.magnitude_infinite_iff.1 hinf]
    exact Or.inl rfl
  · exact Or.inr hneg
  · exact absurd hlen hlong

theorem Reads.denotes_toTerm (h : t.Reads w) (hw : ¬ w.OutOfRange) :
    ∃ x, t.toTerm = .ok x ∧ w.Denotes x := by
  simp only [WrittenTerm.OutOfRange, not_or, not_lt, WrittenTerm.magnitude_infinite_iff,
    Bool.not_eq_false] at hw
  obtain ⟨finite, hneg, hlen⟩ := hw
  refine ⟨⟨Neg.neg^[w.minuses] w.rounded, w.exponentValue⟩, ?_, rfl, _, w.magnitude_rounded, rfl⟩
  rw [toTerm, h.exponent?, if_neg (by omega)]
  dsimp only
  rw [h.signed_eq, h.magnitude, finite, if_neg]
  rw [Bool.or_eq_true, decide_eq_true_eq]
  rintro (hf | hlt)
  · contradiction
  · omega

/-! ## Several terms -/

theorem mapM_toTerm_of_reads {ts : List Token} {ws : List WrittenTerm}
    (h : List.Forall₂ Reads ts ws) (hws : ∀ w ∈ ws, ¬ w.OutOfRange) :
    ∃ xs, ts.mapM toTerm = .ok xs ∧ List.Forall₂ WrittenTerm.Denotes ws xs := by
  induction h with
  | nil => exact ⟨[], rfl, .nil⟩
  | cons hr _ ih =>
    obtain ⟨x, hx, hd⟩ := hr.denotes_toTerm (hws _ List.mem_cons_self)
    obtain ⟨xs, hxs, hds⟩ := ih fun w hw => hws w (List.mem_cons_of_mem _ hw)
    refine ⟨x :: xs, ?_, .cons hd hds⟩
    rw [List.mapM_cons, hx, hxs]
    rfl

/-- The first term out of range is reported, whatever follows it. -/
theorem mapM_toTerm_eq_error {ts : List Token} {before after : List WrittenTerm}
    (h : List.Forall₂ Reads ts (before ++ w :: after)) (hbefore : ∀ v ∈ before, ¬ v.OutOfRange)
    (hw : w.OutOfRange) : ts.mapM toTerm = .error (.termRange (trim w.chars)) := by
  induction before generalizing ts with
  | nil =>
    cases h with
    | cons hr _ =>
      rw [List.mapM_cons, hr.toTerm_eq_error hw]
      rfl
  | cons v before ih =>
    cases h with
    | cons hr hrs =>
      obtain ⟨x, hx, -⟩ := hr.denotes_toTerm (hbefore v List.mem_cons_self)
      rw [List.mapM_cons, hx, ih hrs fun u hu => hbefore u (List.mem_cons_of_mem _ hu)]
      rfl

end Token

/-! ## Sides -/

namespace Equation

/-- A written side has a letter in it. -/
theorem isZeroSide_chars (s : WrittenSide) : isZeroSide s.chars = false := by
  have hx : letterChar s.first.capital ∈ s.chars := s.letterChar_mem
  rw [isZeroSide, beq_eq_false_iff_ne]
  intro h
  have := mem_trim hx (isBlank_letterChar _)
  rw [h, List.mem_singleton] at this
  cases hc : s.first.capital <;> rw [hc] at this <;> contradiction

theorem sideTerms_eq_mapM {side : List Char} {ts : List Token} (hz : isZeroSide side = false)
    (h : Token.tokens side = .ok ts) : sideTerms side = ts.mapM Token.toTerm := by
  rw [sideTerms, hz, h]
  rfl

theorem sideTerms_of_zeroSide {side : List Char} (h : trim side = ['0']) :
    sideTerms side = .ok [⟨.zero, 0⟩] := if_pos (beq_iff_eq.2 h)

theorem sideTerms_chars (s : WrittenSide) (h : ∀ w ∈ s.terms, ¬ w.OutOfRange) :
    ∃ xs, sideTerms s.chars = .ok xs ∧ List.Forall₂ WrittenTerm.Denotes s.terms xs := by
  obtain ⟨ts, hts, hreads⟩ := Token.tokens_chars s
  rw [sideTerms_eq_mapM (isZeroSide_chars s) hts]
  exact Token.mapM_toTerm_of_reads hreads h

theorem sideTerms_chars_eq_error (s : WrittenSide) {before after : List WrittenTerm}
    {w : WrittenTerm} (hs : s.terms = before ++ w :: after)
    (hbefore : ∀ v ∈ before, ¬ v.OutOfRange) (hw : w.OutOfRange) :
    sideTerms s.chars = .error (.termRange (trim w.chars)) := by
  obtain ⟨ts, hts, hreads⟩ := Token.tokens_chars s
  rw [sideTerms_eq_mapM (isZeroSide_chars s) hts]
  rw [hs] at hreads
  exact Token.mapM_toTerm_eq_error hreads hbefore hw

/-- However a side is written, it is read as one term for each that is written, in their order, with
its value; or the first of them that is out of range is reported. A side that is just `0` has the
term `0 * X^0`. -/
theorem sideTerms_agree_with_meaning (s : WrittenSide) :
    ((∀ w ∈ s.terms, ¬ w.OutOfRange) →
      ∃ xs, sideTerms s.chars = .ok xs ∧ List.Forall₂ WrittenTerm.Denotes s.terms xs) ∧
    (∀ before w after, s.terms = before ++ w :: after → (∀ v ∈ before, ¬ v.OutOfRange) →
      w.OutOfRange → sideTerms s.chars = .error (.termRange (trim w.chars))) ∧
    ∀ side, trim side = ['0'] → sideTerms side = .ok [⟨.zero, 0⟩] :=
  ⟨sideTerms_chars s, fun _ _ _ => sideTerms_chars_eq_error s, fun _ => sideTerms_of_zeroSide⟩

/-- A side whose second term has an exponent below zero, and its first term alone. -/
theorem sideTerms_of_two_written :
    (∃ xs, sideTerms ['-', '2', '*', 'x', '^', '٣'] = .ok xs) ∧
      sideTerms ['-', '2', '*', 'x', '^', '٣', '+', 'x', '^', '-', '1'] =
        .error (.termRange ['+', 'x', '^', '-', '1']) := by
  let two : WrittenFactor := ⟨⟨.single '2' (by decide), none⟩, .empty, .empty⟩
  let first : WrittenTerm := .compact (some .minus) (some two) false (.single '٣' (by decide))
  let second : WrittenTerm := .compact (some .plus) none true (.single '1' (by decide))
  have readable : ∀ w ∈ [first], ¬ w.OutOfRange := List.forall_mem_singleton.2 (by decide +kernel)
  obtain ⟨xs, h, -⟩ := (sideTerms_agree_with_meaning ⟨first, [], by simp⟩).1 readable
  refine ⟨⟨xs, h⟩, (sideTerms_agree_with_meaning ⟨first, [second], ?_⟩).2.1 [first] second [] rfl
    readable (by decide +kernel)⟩
  exact List.forall_mem_singleton.2 rfl

end Equation

end PolySolve
