import PolySolve.Json.Reader
import PolySolve.Json.Writer
import PolySolve.Proofs.Decimal.General
import PolySolve.Proofs.Text.Runs

/-!
# Words and numbers come back

A value that holds no others is written as a word, an integer or a number with
a point or an exponent, and what follows it tells where it ends. Reading it
gives the value again:

* `scan?_integer`, `scan?_written`: the parts of a number;
* `scanPlain_int`, `scanPlain_float`, `scanPlain_word`: the values.
-/

namespace PolySolve.Json

open Binary64 Text Decimal

-- The elaborator must not evaluate these powers of two.
attribute [local irreducible] overflowUnits unitsPerOne

/-! ## What follows a value -/

/-- The end of the text, or what stands after a value in a container. -/
def Delimited (rest : List Char) : Prop := ∀ c ∈ rest.head?, c = ',' ∨ c = '\n'

theorem delimited_nil : Delimited [] := fun _ h => by contradiction

theorem delimited_cons {c : Char} (h : c = ',' ∨ c = '\n') (rest : List Char) :
    Delimited (c :: rest) := fun d hd => by
  obtain rfl : c = d := Option.some.inj hd
  exact h

theorem Delimited.stops {rest : List Char} (h : Delimited rest) {p : Char → Bool}
    (hcomma : p ',' = false) (hline : p '\n' = false) : Stops p rest := fun c hc => by
  rcases h c hc with rfl | rfl
  · exact hcomma
  · exact hline

/-- A run of digits is taken whole. -/
theorem takeWhile_digits {ds rest : List Char} (hd : ∀ c ∈ ds, c.isDigit)
    (hr : Stops isAsciiDigit rest) :
    (ds ++ rest).takeWhile isAsciiDigit = ds ∧ (ds ++ rest).dropWhile isAsciiDigit = rest :=
  (dropWhile_append_of_stops hd hr).symm

/-! ## The parts of a number -/

namespace Numeral

theorem scanWhole?_append {whole rest : List Char} (hne : whole ≠ [])
    (hd : ∀ c ∈ whole, c.isDigit) (hl : whole = ['0'] ∨ '0' ∉ whole.head?)
    (hr : Stops isAsciiDigit rest) : scanWhole? (whole ++ rest) = some (whole, rest) := by
  obtain ⟨htake, hdrop⟩ := takeWhile_digits hd hr
  rcases hl with rfl | hl
  · rfl
  · obtain ⟨c, cs, rfl⟩ := List.exists_cons_of_ne_nil hne
    have h0 : c ≠ '0' := by
      rintro rfl
      exact hl rfl
    show scanWhole? (c :: (cs ++ rest)) = _
    unfold scanWhole?
    split
    · rename_i hc
      exact absurd (List.cons.inj hc).1 h0
    · rw [← List.cons_append, htake, hdrop, if_neg hne]

theorem scanFraction_append {fraction rest : List Char} (hd : ∀ c ∈ fraction, c.isDigit)
    (hr : Stops isAsciiDigit rest) (hp : '.' ∉ rest.head?) :
    scanFraction (fractionChars fraction ++ rest) = (fraction, rest) := by
  obtain ⟨htake, hdrop⟩ := takeWhile_digits hd hr
  unfold fractionChars
  split
  · rename_i h
    subst h
    show scanFraction rest = _
    unfold scanFraction
    split
    · exact absurd rfl hp
    · rfl
  · rename_i h
    simp only [List.cons_append, scanFraction, htake, hdrop, if_neg h]

theorem scanExponent_append (e : Option Int) {rest : List Char} (h : Delimited rest) :
    scanExponent (exponentPartChars e ++ rest) = (e, rest) := by
  have hr : Stops isAsciiDigit rest := h.stops (by decide) (by decide)
  cases e with
  | none =>
    show scanExponent rest = _
    unfold scanExponent
    split
    · rename_i c cs
      have hc := h c rfl
      split
      · rename_i he
        rcases hc with rfl | rfl <;> exact absurd he (by decide)
      · rfl
    · rfl
  | some e =>
    have hdigits : ∀ c ∈ paddedDigits 2 e.natAbs, c.isDigit := fun c =>
      isDigit_of_mem_paddedDigits
    obtain ⟨htake, hdrop⟩ := takeWhile_digits hdigits hr
    have hvalue : digitsValue (paddedDigits 2 e.natAbs) = e.natAbs := digitsValue_paddedDigits _ _
    show scanExponent ('e' :: ((if e < 0 then '-' else '+') :: paddedDigits 2 e.natAbs ++ rest)) = _
    unfold scanExponent
    by_cases hneg : e < 0
    · simp only [hneg, if_true, true_or, List.cons_append]
      rw [htake, hdrop, hvalue, if_neg (paddedDigits_ne_nil _ _)]
      congr 2
      omega
    · simp only [hneg, if_false, true_or, if_true, List.cons_append]
      rw [htake, hdrop, hvalue, if_neg (paddedDigits_ne_nil _ _)]
      simp only [Bool.false_eq_true, if_false]
      congr 2
      omega

/-- A sign is read apart from the digits. -/
theorem scan?_sign (s : Bool) {cs : List Char} (h : ∃ c rest, cs = c :: rest ∧ c.isDigit) :
    scan? ((if s then ['-'] else []) ++ cs) = (do
      let (whole, r) ← scanWhole? cs
      let (fraction, r) := scanFraction r
      let (exponent, r) := scanExponent r
      return (⟨s, whole, fraction, exponent⟩, r)) := by
  obtain ⟨c, rest, rfl, hc⟩ := h
  cases s with
  | true => rfl
  | false =>
    have hminus : c ≠ '-' := by
      rintro rfl
      contradiction
    show scan? (c :: rest) = _
    unfold scan?
    split
    rename_i heq
    split at heq
    · rename_i hcons
      exact absurd (List.cons.inj hcons).1 hminus
    · obtain ⟨rfl, rfl⟩ := Prod.mk.inj heq
      rfl

theorem exists_digit_of_ne_nil {ds : List Char} (h : ds ≠ []) (hd : ∀ c ∈ ds, c.isDigit)
    (rest : List Char) : ∃ c cs, ds ++ rest = c :: cs ∧ c.isDigit := by
  obtain ⟨c, cs, rfl⟩ := List.exists_cons_of_ne_nil h
  exact ⟨c, cs ++ rest, rfl, hd c List.mem_cons_self⟩

theorem scan?_parts (s : Bool) {whole fraction rest : List Char} {e : Option Int}
    (hne : whole ≠ []) (hw : ∀ c ∈ whole, c.isDigit) (hl : whole = ['0'] ∨ '0' ∉ whole.head?)
    (hf : ∀ c ∈ fraction, c.isDigit) (h : Delimited rest) :
    scan? ((if s then ['-'] else []) ++
        (whole ++ (fractionChars fraction ++ (exponentPartChars e ++ rest)))) =
      some (⟨s, whole, fraction, e⟩, rest) := by
  have hexponent : Stops isAsciiDigit (exponentPartChars e ++ rest) := by
    cases e with
    | none => exact h.stops (by decide) (by decide)
    | some e => exact stops_cons (by decide) _
  have hpoint : '.' ∉ (exponentPartChars e ++ rest).head? := by
    cases e with
    | none => exact fun hp => absurd (h '.' hp) (by decide)
    | some e => exact fun hp => absurd (Option.some.inj hp) (by decide)
  have hfraction : Stops isAsciiDigit (fractionChars fraction ++ (exponentPartChars e ++ rest)) := by
    unfold fractionChars
    split
    · exact hexponent
    · exact stops_cons (by decide) _
  rw [scan?_sign s (exists_digit_of_ne_nil hne hw _), scanWhole?_append hne hw hl hfraction]
  simp only [Option.bind_eq_bind, Option.bind_some, scanFraction_append hf hexponent hpoint,
    scanExponent_append e h]
  rfl

/-- An integer. -/
theorem scan?_integer (s : Bool) (n : Nat) {rest : List Char} (h : Delimited rest) :
    scan? ((if s then ['-'] else []) ++ (digitChars n ++ rest)) =
      some (⟨s, digitChars n, [], none⟩, rest) := by
  have hl : digitChars n = ['0'] ∨ '0' ∉ (digitChars n).head? := by
    by_cases h0 : n = 0
    · exact Or.inl (by rw [h0]; rfl)
    · exact Or.inr (head?_digitChars h0)
  have hparts : digitChars n ++ rest =
      digitChars n ++ (fractionChars [] ++ (exponentPartChars none ++ rest)) := rfl
  rw [hparts]
  exact scan?_parts s (digitChars_ne_nil n) (fun c => isDigit_of_mem_digitChars) hl
    (List.forall_mem_nil _) h

/-- A number in the general form. -/
theorem scan?_written (s : Bool) (w : Written) {rest : List Char} (h : Delimited rest) :
    scan? ((if s then ['-'] else []) ++ (w.chars ++ rest)) =
      some (⟨s, w.whole, w.fraction, w.exponent⟩, rest) := by
  have hchars : w.chars ++ rest =
      w.whole ++ (fractionChars w.fraction ++ (exponentPartChars w.exponent ++ rest)) := by
    rw [Written.chars, List.append_assoc, List.append_assoc]
  rw [hchars]
  exact scan?_parts s w.whole_ne_nil w.whole_digit w.leading w.fraction_digit h

theorem value_written (s : Bool) (w : Written) :
    (⟨s, w.whole, w.fraction, w.exponent⟩ : Numeral).value =
      .ok (.float (w.value.toBinary64 s)) := by
  have hmarked : ¬ (w.fraction = [] ∧ w.exponent = none) := fun ⟨hf, he⟩ =>
    w.marked.elim (fun h => h hf) fun h => by rw [he] at h; contradiction
  exact if_neg hmarked

theorem value_integer (s : Bool) {n : Nat} (h : (digitChars n).length ≤ maxIntegerDigits) :
    (⟨s, digitChars n, [], none⟩ : Numeral).value = .ok (.int (if s then -n else n)) := by
  show (if maxIntegerDigits < (digitChars n).length then _ else
    Except.ok (Json.int (if s then -(digitsValue (digitChars n) : Int)
      else digitsValue (digitChars n)))) = _
  rw [if_neg (Nat.not_lt.2 h), digitsValue_digitChars]

end Numeral

/-! ## Values -/

/-- A word is none of those before it, and is read as its value. -/
theorem scanPlain_word {w : List Char} {v : Json} (h : (w, v) ∈ words) (rest : List Char) :
    scanPlain (w ++ rest) = .ok (v, rest) := by
  have first : words.find? (fun u => u.1.isPrefixOf (w ++ rest)) = some (w, v) := by
    simp only [words, List.mem_cons, List.not_mem_nil, or_false, Prod.mk.injEq] at h
    rcases h with ⟨rfl, rfl⟩ | ⟨rfl, rfl⟩ | ⟨rfl, rfl⟩ | ⟨rfl, rfl⟩ | ⟨rfl, rfl⟩ | ⟨rfl, rfl⟩ <;> rfl
  unfold scanPlain
  split
  · rename_i hfind
    obtain ⟨rfl, rfl⟩ := Prod.mk.inj (Option.some.inj (hfind.symm.trans first))
    rw [List.drop_left]
  · rename_i hfind
    exact absurd (hfind.symm.trans first) (Option.some_ne_none _).symm

/-- No word starts with a digit, or with a minus and a digit. -/
theorem find?_words_of_digit (s : Bool) {cs : List Char}
    (h : ∃ c rest, cs = c :: rest ∧ c.isDigit) :
    words.find? (fun (u, _) => u.isPrefixOf ((if s then ['-'] else []) ++ cs)) = none := by
  obtain ⟨c, rest, rfl, hc⟩ := h
  have hne (d : Char) (hd : d.isDigit = false) : (d == c) = false := by
    rw [beq_eq_false_iff_ne]
    rintro rfl
    rw [hd] at hc
    contradiction
  cases s <;> simp [words, List.isPrefixOf, hne]

theorem scanPlain_of_scan? {cs rest : List Char} {n : Numeral} {v : Json}
    (hw : words.find? (fun (u, _) => u.isPrefixOf cs) = none)
    (hs : Numeral.scan? cs = some (n, rest)) (hv : n.value = .ok v) :
    scanPlain cs = .ok (v, rest) := by
  unfold scanPlain
  rw [hw, hs]
  dsimp only
  rw [hv]
  rfl

theorem intChars_eq (n : Int) :
    intChars n = (if decide (n < 0) then ['-'] else []) ++ digitChars n.natAbs := by
  by_cases h : n < 0
  · rw [intChars_of_neg h]
    simp [h]
  · rw [intChars_of_nonneg (Int.not_lt.1 h)]
    simp [h]

theorem scanPlain_int {n : Int} (hn : (digitChars n.natAbs).length ≤ maxIntegerDigits)
    {rest : List Char} (h : Delimited rest) :
    scanPlain (intChars n ++ rest) = .ok (.int n, rest) := by
  have hdigit := Numeral.exists_digit_of_ne_nil (digitChars_ne_nil n.natAbs)
    (fun c => isDigit_of_mem_digitChars) rest
  have hvalue := Numeral.value_integer (decide (n < 0)) hn
  have hback : (if decide (n < 0) then -(n.natAbs : Int) else n.natAbs) = n := by
    split <;> rename_i hlt
    · have := of_decide_eq_true hlt
      omega
    · have := of_decide_eq_false (Bool.eq_false_iff.2 hlt)
      omega
  rw [hback] at hvalue
  rw [intChars_eq, List.append_assoc]
  exact scanPlain_of_scan? (find?_words_of_digit _ hdigit) (Numeral.scan?_integer _ _ h) hvalue

theorem floatChars_finite {s : Bool} {n : Nat} {hn : OnGrid n} {b : n < overflowUnits} :
    floatChars (finite s n hn b) = (if s then ['-'] else []) ++ magnitudeChars n := by
  cases s <;> rfl

theorem scanPlain_float (x : Binary64) {rest : List Char} (h : Delimited rest) :
    scanPlain (floatChars x ++ rest) = .ok (.float x, rest) := by
  cases x with
  | nan =>
    show scanPlain ("NaN".toList ++ rest) = _
    exact scanPlain_word (by simp [words]) rest
  | infinite s =>
    cases s with
    | false =>
      show scanPlain ("Infinity".toList ++ rest) = _
      exact scanPlain_word (by simp [words]) rest
    | true =>
      show scanPlain ("-Infinity".toList ++ rest) = _
      exact scanPlain_word (by simp [words]) rest
  | finite s n hn b =>
    obtain ⟨w, hw, -, hv⟩ := exists_written_magnitudeChars hn
    have hdigit : ∃ c cs, w.chars ++ rest = c :: cs ∧ c.isDigit := by
      rw [Written.chars, List.append_assoc]
      exact Numeral.exists_digit_of_ne_nil w.whole_ne_nil w.whole_digit _
    have hvalue := Numeral.value_written s w
    have hback : w.value.toBinary64 s = finite s n hn b := by
      rw [toBinary64_of_isNearest hv, ofUnits, dif_pos b]
    rw [hback] at hvalue
    rw [floatChars_finite, ← hw, List.append_assoc]
    exact scanPlain_of_scan? (find?_words_of_digit s hdigit) (Numeral.scan?_written s w h) hvalue

end PolySolve.Json
