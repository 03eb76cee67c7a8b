import PolySolve.Proofs.Binary64.Monotone
import PolySolve.Proofs.Binary64.Opposite
import PolySolve.Proofs.Decimal.FewestDigits
import PolySolve.Proofs.Decimal.Reading

/-!
# What a plain number says

The text of a plain number determines the value and is determined by it, up to the sign of a zero.
It is a whole number exactly if the value is one, and else no text that reads as the value has fewer
significant digits. Texts of any form are compared with it: with blanks around them, underscores
among the digits, digits of other scripts, and exponents.

* `significantDigits`: the digits of a text in front of its exponent, from the first on that is not
  a zero;
* `exists_decimal_of_value?`: they are those of the decimal that is rounded;
* `significantDigits_plainChars`: a plain number has the digits of the shortest decimal;
* `plainChars_faithful`: all of this together.
-/

namespace PolySolve.Decimal

open Binary64 Text

-- The elaborator must not evaluate these powers of two.
attribute [local irreducible] overflowUnits unitsPerOne

/-! ## Significant digits -/

/-- The letter in front of an exponent. -/
def isExponentLetter (c : Char) : Bool := c == 'e' || c == 'E'

/-- The digits of a number in front of its exponent. -/
def mantissaDigits (cs : List Char) : List Char :=
  (cs.takeWhile fun c => !isExponentLetter c).filter isDigit

/-- The digits of a number in front of its exponent, from the first on that is not a zero. -/
def significantDigits (cs : List Char) : List Char :=
  (mantissaDigits cs).dropWhile fun c => digitValue? c == some 0

/-- Only digits and the letters of an exponent have a part in it. -/
def hasPart (c : Char) : Bool := isDigit c || isExponentLetter c

theorem isDigit_of_isExponentLetter {c : Char} (h : isExponentLetter c) : isDigit c = false := by
  simp only [isExponentLetter, Bool.or_eq_true, beq_iff_eq] at h
  rcases h with rfl | rfl <;> decide

theorem isExponentLetter_of_isDigit {c : Char} (h : isDigit c) : isExponentLetter c = false := by
  rw [Bool.eq_false_iff]
  intro he
  rw [isDigit_of_isExponentLetter he] at h
  contradiction

theorem mantissaDigits_filter (cs : List Char) :
    mantissaDigits (cs.filter hasPart) = mantissaDigits cs := by
  unfold mantissaDigits
  induction cs with
  | nil => rfl
  | cons c cs ih =>
    by_cases he : isExponentLetter c
    · simp [hasPart, he]
    · by_cases hd : isDigit c
      · simp [hasPart, he, hd, ih]
      · simp [hasPart, he, hd, ih]

theorem mantissaDigits_congr {cs ds : List Char} (h : cs.filter hasPart = ds.filter hasPart) :
    mantissaDigits cs = mantissaDigits ds := by
  rw [← mantissaDigits_filter, h, mantissaDigits_filter]

theorem mantissaDigits_cons {c : Char} (h : hasPart c = false) (cs : List Char) :
    mantissaDigits (c :: cs) = mantissaDigits cs :=
  mantissaDigits_congr (List.filter_cons_of_neg (by rw [h]; exact Bool.false_ne_true))

theorem mantissaDigits_exponent {c : Char} (h : isExponentLetter c) (cs : List Char) :
    mantissaDigits (c :: cs) = [] := by
  simp [mantissaDigits, h]

theorem mantissaDigits_append {run : List Char} (h : ∀ c ∈ run, isDigit c) (cs : List Char) :
    mantissaDigits (run ++ cs) = run ++ mantissaDigits cs := by
  have hletter : ∀ c ∈ run, (!isExponentLetter c) = true := fun c hc => by
    rw [isExponentLetter_of_isDigit (h c hc)]
    rfl
  rw [mantissaDigits, List.takeWhile_append_of_pos hletter, List.filter_append,
    List.filter_eq_self.2 h]
  rfl

theorem mantissaDigits_of_digits {run : List Char} (h : ∀ c ∈ run, isDigit c) :
    mantissaDigits run = run := by
  have happend := mantissaDigits_append h []
  rwa [List.append_nil, show mantissaDigits [] = [] from rfl, List.append_nil] at happend

/-- Zeros in front do not count. -/
theorem digitsValue_dropWhile (ds : List Char) :
    digitsValue (ds.dropWhile fun c => digitValue? c == some 0) = digitsValue ds := by
  induction ds with
  | nil => rfl
  | cons c ds ih =>
    by_cases h : digitValue? c = some 0
    · have hzero := digitsValue_append [c] ds
      rw [digitsValue_singleton h, Nat.zero_mul, Nat.zero_add] at hzero
      rw [List.dropWhile_cons, if_pos (beq_iff_eq.2 h), ih]
      exact hzero.symm
    · rw [List.dropWhile_cons, if_neg (by simpa using h)]

theorem digitsValue_significantDigits (cs : List Char) :
    digitsValue (significantDigits cs) = digitsValue (mantissaDigits cs) :=
  digitsValue_dropWhile _

/-! ## Texts that read as a value -/

section

variable {cs ds : List Char} {d : Decimal} {x : Binary64}

theorem mantissaDigits_of_exponent? {e : Int} (h : exponent? cs = some e) :
    mantissaDigits cs = [] := by
  unfold exponent? at h
  split at h
  · rfl
  · rename_i c r
    split at h
    · rename_i hc
      exact mantissaDigits_exponent (by simpa [isExponentLetter] using hc) r
    · contradiction

theorem mantissaDigits_splitFraction (cs : List Char) :
    mantissaDigits cs = (splitFraction cs).1 ++ mantissaDigits (splitFraction cs).2 := by
  unfold splitFraction
  split
  · rename_i r
    rw [mantissaDigits_cons (by decide)]
    conv_lhs => rw [← List.takeWhile_append_dropWhile (p := isDigit) (l := r)]
    exact mantissaDigits_append (fun c hc => List.mem_takeWhile_imp hc) _
  · rfl

theorem mantissaDigits_of_unsigned? (h : unsigned? cs = some d) :
    digitsValue (mantissaDigits cs) = d.digits := by
  unfold unsigned? at h
  dsimp only at h
  split at h
  · contradiction
  obtain ⟨e, he, rfl⟩ := Option.map_eq_some_iff.1 h
  rw [← List.takeWhile_append_dropWhile (p := isDigit) (l := cs),
    mantissaDigits_append fun c hc => List.mem_takeWhile_imp hc, mantissaDigits_splitFraction,
    mantissaDigits_of_exponent? he, List.append_nil, List.takeWhile_append_dropWhile]
  rfl

theorem filter_of_dropUnderscores? (h : dropUnderscores? cs = some ds) :
    ds.filter hasPart = cs.filter hasPart := by
  induction cs using dropUnderscores?.induct generalizing ds with
  | case1 =>
    obtain rfl := Option.some.inj h
    rfl
  | case2 => contradiction
  | case3 c d rest hc hdigit ih =>
    rw [dropUnderscores?.eq_3 _ _ _ hc, if_pos hdigit] at h
    obtain ⟨tail, htail, rfl⟩ := Option.map_eq_some_iff.1 h
    rw [List.filter_cons, List.filter_cons, ih htail,
      List.filter_cons_of_neg (a := '_') (by decide)]
  | case4 c d rest hc hdigit =>
    rw [dropUnderscores?.eq_3 _ _ _ hc, if_neg hdigit] at h
    contradiction
  | case5 c rest hc hrest ih =>
    rw [dropUnderscores?.eq_4 _ _ hc hrest] at h
    obtain ⟨tail, htail, rfl⟩ := Option.map_eq_some_iff.1 h
    rw [List.filter_cons, List.filter_cons, ih htail]

theorem not_isFinite_of_word? {s : Bool} (h : word? cs s = some x) : x.isFinite = false := by
  unfold word? at h
  dsimp only at h
  split at h
  · obtain rfl := Option.some.inj h
    rfl
  split at h
  · obtain rfl := Option.some.inj h
    rfl
  · contradiction

theorem exists_decimal_of_signed? (h : signed? cs = some x) (hx : x.isFinite) :
    ∃ (d : Decimal) (s : Bool),
      x = d.toBinary64 s ∧ digitsValue (mantissaDigits cs) = d.digits := by
  unfold signed? at h
  split at h
  rename_i s body hsign
  have hdigits : mantissaDigits cs = mantissaDigits body := by
    split at hsign <;> obtain ⟨-, rfl⟩ := Prod.mk.inj hsign
    · exact mantissaDigits_cons (by decide) _
    · exact mantissaDigits_cons (by decide) _
    · rfl
  split at h
  · rename_i d hd
    obtain ⟨ds, hds, hunsigned⟩ := Option.bind_eq_some_iff.1 hd
    refine ⟨d, s, (Option.some.inj h).symm, ?_⟩
    rw [hdigits, ← mantissaDigits_congr (filter_of_dropUnderscores? hds)]
    exact mantissaDigits_of_unsigned? hunsigned
  · rw [not_isFinite_of_word? h] at hx
    contradiction

theorem hasPart_of_isMargin {c : Char} (h : isMargin c) : hasPart c = false := by
  have hblank : isBlank c := (Bool.and_eq_true_iff.1 h).1
  have hletter : isExponentLetter c = false := by
    rw [Bool.eq_false_iff]
    intro he
    simp only [isExponentLetter, Bool.or_eq_true, beq_iff_eq] at he
    rcases he with rfl | rfl <;> contradiction
  rw [hasPart, isDigit_of_isBlank hblank, hletter]
  rfl

theorem filter_dropWhile_isMargin (cs : List Char) :
    (cs.dropWhile isMargin).filter hasPart = cs.filter hasPart := by
  have hnone : (cs.takeWhile isMargin).filter hasPart = [] := by
    rw [List.filter_eq_nil_iff]
    intro c hc
    rw [hasPart_of_isMargin (List.mem_takeWhile_imp hc)]
    exact Bool.false_ne_true
  conv_rhs => rw [← List.takeWhile_append_dropWhile (p := isMargin) (l := cs)]
  rw [List.filter_append, hnone, List.nil_append]

/-- A text that reads as a finite value has the digits of a decimal that is rounded to it. -/
theorem exists_decimal_of_value? (h : value? cs = some x) (hx : x.isFinite) :
    ∃ (d : Decimal) (s : Bool),
      x = d.toBinary64 s ∧ digitsValue (significantDigits cs) = d.digits := by
  have hfilter : ((cs.dropWhile isMargin).reverse.dropWhile isMargin).reverse.filter hasPart =
      cs.filter hasPart := by
    rw [List.filter_reverse, filter_dropWhile_isMargin, List.filter_reverse, List.reverse_reverse,
      filter_dropWhile_isMargin]
  rw [digitsValue_significantDigits, ← mantissaDigits_congr hfilter]
  exact exists_decimal_of_signed? h hx

theorem readsBack_of_toBinary64 {s t : Bool} {n : Nat} {hn : OnGrid n} {b : n < overflowUnits}
    (h : finite t n hn b = d.toBinary64 s) : readsBack d n := by
  rw [toBinary64_eq_round, Binary64.round, ofUnits] at h
  split at h
  · injection h with _ hunits
    exact beq_iff_eq.2 hunits.symm
  · contradiction

end

/-! ## The digits of plain numbers -/

section

variable {ds : List Char}

theorem Significant.dropWhile_eq (h : Significant ds) :
    (ds.dropWhile fun c => digitValue? c == some 0) = ds := by
  obtain ⟨c, rest, rfl⟩ := List.exists_cons_of_ne_nil h.ne_nil
  refine List.dropWhile_cons_of_neg ?_
  have hdigit := h.digit c List.mem_cons_self
  have bounds : 48 ≤ c.toNat := by
    simp only [Char.isDigit, Bool.and_eq_true, decide_eq_true_eq] at hdigit
    exact hdigit.1
  have hzero : c ≠ '0' := fun hc => h.head (by rw [hc]; rfl)
  have hne : c.toNat ≠ 48 := fun hc => hzero (Char.ext (UInt32.toNat_inj.1 hc))
  rw [digitValue?_of_isDigit hdigit, beq_iff_eq, Option.some.injEq]
  omega

theorem dropWhile_zeros_append (k : Nat) (ds : List Char) :
    ((zeros k ++ ds).dropWhile fun c => digitValue? c == some 0) =
      ds.dropWhile fun c => digitValue? c == some 0 := by
  refine List.dropWhile_append_of_pos fun c hc => ?_
  rw [List.eq_of_mem_replicate hc]
  decide

/-- Written out with some of the digits after the point. -/
theorem significantDigits_writtenOut (h : Significant ds) {point : Int}
    (hpoint : point < ds.length) : significantDigits (writtenOut ds point) = ds := by
  have hdigit : ∀ c ∈ ds, isDigit c := fun c hc => isDigit_of_charIsDigit (h.digit c hc)
  unfold writtenOut significantDigits
  split
  · have hzeros : ∀ c ∈ zeros (-point).toNat ++ ds, isDigit c := fun c hc =>
      (List.mem_append.1 hc).elim (fun hc => isDigit_of_charIsDigit (isDigit_of_mem_zeros hc))
        (hdigit c)
    have hrun : mantissaDigits ('0' :: '.' :: (zeros (-point).toNat ++ ds)) =
        zeros 1 ++ (zeros (-point).toNat ++ ds) := by
      have happend := mantissaDigits_append (List.forall_mem_singleton.2 (by decide : isDigit '0'))
        ('.' :: (zeros (-point).toNat ++ ds))
      rwa [mantissaDigits_cons (by decide), mantissaDigits_of_digits hzeros] at happend
    rw [hrun, dropWhile_zeros_append, dropWhile_zeros_append, h.dropWhile_eq]
  · rw [if_neg (by omega)]
    rw [mantissaDigits_append fun c hc => hdigit c (List.mem_of_mem_take hc),
      mantissaDigits_cons (by decide),
      mantissaDigits_of_digits fun c hc => hdigit c (List.mem_of_mem_drop hc),
      List.take_append_drop, h.dropWhile_eq]

theorem significantDigits_withExponent (h : Significant ds) (point : Int) :
    significantDigits (withExponent ds point) = ds := by
  have hdigit : ∀ c ∈ ds, isDigit c := fun c hc => isDigit_of_charIsDigit (h.digit c hc)
  have hexponent (cs : List Char) : mantissaDigits ('e' :: cs) = [] :=
    mantissaDigits_exponent rfl cs
  have hmantissa : mantissaDigits (withExponent ds point) = ds := by
    unfold withExponent
    split
    · rfl
    · rename_i d
      have happend := mantissaDigits_append hdigit ('e' :: exponentChars (point - 1))
      rwa [hexponent, List.append_nil] at happend
    · rename_i d rest _
      have happend := mantissaDigits_append
        (List.forall_mem_singleton.2 (hdigit d List.mem_cons_self))
        ('.' :: (rest ++ 'e' :: exponentChars (point - 1)))
      rw [mantissaDigits_cons (by decide),
        mantissaDigits_append fun c hc => hdigit c (List.mem_cons_of_mem _ hc), hexponent,
        List.append_nil] at happend
      exact happend
  rw [significantDigits, hmantissa, h.dropWhile_eq]

/-- A magnitude with a fraction is written in the digits of its shortest decimal. -/
theorem significantDigits_magnitudeChars {n : Nat} (hn : OnGrid n) (h : ¬ unitsPerOne ∣ n) :
    significantDigits (magnitudeChars n) = digitChars (shortest n).digits := by
  have h0 : n ≠ 0 := fun h0 => h (h0 ▸ Nat.dvd_zero _)
  have significant := significant_digitChars (digits_shortest_ne_zero hn h0)
  have hexp := exponent_shortest_neg hn h
  rw [magnitudeChars, if_neg h0]
  dsimp only
  split
  · exact significantDigits_writtenOut significant (by omega)
  · exact significantDigits_withExponent significant _

end

/-! ## Plain numbers -/

section

variable {x y : Binary64}

theorem plainChars_unsignedZero (x : Binary64) : plainChars x.unsignedZero = plainChars x := by
  rw [plainChars, plainChars, unsignedZero_of_ne x.unsignedZero_ne]

theorem value?_plainChars_unsignedZero (hx : x.isFinite) :
    value? (plainChars x) = some x.unsignedZero := by
  rw [← plainChars_unsignedZero]
  exact value?_plainChars ((isFinite_unsignedZero x).trans hx) x.unsignedZero_ne

theorem sameValue_of_numEq (hx : x.isFinite) (h : x.numEq y) : SameValue x y := by
  cases x with
  | nan => contradiction
  | infinite s => contradiction
  | finite s m hm b =>
    cases y with
    | nan => contradiction
    | infinite t => contradiction
    | finite t n hn b' =>
      have h : (m == n && (s == t || m == 0)) = true := h
      simp only [Bool.and_eq_true, Bool.or_eq_true, beq_iff_eq] at h
      obtain ⟨rfl, rfl | rfl⟩ := h
      · exact .refl _
      · exact sameValue_of_isZero rfl rfl

theorem sameValue_unsignedZero (x : Binary64) : SameValue x.unsignedZero x :=
  unsignedZero_of_ne x.unsignedZero_ne

/-- Two values have the same text exactly if they are numerically equal. -/
theorem plainChars_inj (hx : x.isFinite) (hy : y.isFinite) :
    plainChars x = plainChars y ↔ x.numEq y := by
  constructor
  · intro h
    have hread := value?_plainChars_unsignedZero hx
    rw [h, value?_plainChars_unsignedZero hy] at hread
    exact SameValue.numEq (Option.some.inj hread).symm hx
  · intro h
    have hsame : x.unsignedZero = y.unsignedZero := sameValue_of_numEq hx h
    rw [← plainChars_unsignedZero x, hsame, plainChars_unsignedZero]

theorem value_eq_intCast_iff (hx : x.isFinite) {k : Int} : value x = k ↔ x.toInt? = some k := by
  refine ⟨fun h => toInt?_eq_some_iff.2 ⟨hx, ?_⟩, value_of_toInt?⟩
  have hunits := units_eq_value_mul x
  rw [h] at hunits
  exact_mod_cast hunits

/-- A whole number is written in its digits. -/
theorem plainChars_of_value_eq (hx : x.isFinite) {k : Int} (h : value x = k) :
    plainChars x = intChars k := by
  rw [← value_unsignedZero, value_eq_intCast_iff ((isFinite_unsignedZero x).trans hx)] at h
  rw [plainChars, h]

theorem not_mem_intChars {k : Int} {c : Char} (hminus : c ≠ '-') (hdigit : ¬ c.isDigit) :
    c ∉ intChars k := by
  unfold intChars
  split
  · rw [List.mem_cons, not_or]
    exact ⟨hminus, fun h => hdigit (isDigit_of_mem_digitChars h)⟩
  · exact fun h => hdigit (isDigit_of_mem_digitChars h)

section

variable {s : Bool} {n : Nat} {hn : OnGrid n} {b : n < overflowUnits}

/-- Values that are no whole numbers have a fraction. -/
theorem not_unitsPerOne_dvd (h : ∀ k : Int, value (finite s n hn b) ≠ k) :
    ¬ unitsPerOne ∣ n := by
  intro hdvd
  have htoInt : (finite s n hn b).toInt? = if unitsPerOne ∣ n
      then some ((if s then (-1 : Int) else 1) * (n / unitsPerOne : Nat)) else none := rfl
  rw [if_pos hdvd] at htoInt
  exact h _ ((value_eq_intCast_iff rfl).2 htoInt)

theorem plainChars_of_value_ne (h : ∀ k : Int, value (finite s n hn b) ≠ k) :
    plainChars (finite s n hn b) = (if s then ['-'] else []) ++ magnitudeChars n := by
  have hne : finite s n hn b ≠ -zero := by
    intro h0
    refine h 0 ?_
    rw [h0, Int.cast_zero, value_eq_zero_iff, units_neg, units_zero, Int.neg_zero]
  rw [plainChars_finite hne, plainMagnitudeChars, if_neg (not_unitsPerOne_dvd h)]

theorem significantDigits_plainChars (h : ∀ k : Int, value (finite s n hn b) ≠ k) :
    significantDigits (plainChars (finite s n hn b)) = digitChars (shortest n).digits := by
  rw [plainChars_of_value_ne h, ← significantDigits_magnitudeChars hn (not_unitsPerOne_dvd h)]
  cases s with
  | false => rfl
  | true =>
    have hminus : mantissaDigits ('-' :: magnitudeChars n) = mantissaDigits (magnitudeChars n) :=
      mantissaDigits_cons (by decide) _
    exact congrArg (List.dropWhile _) hminus

end

/-- No text that reads as a value with a fraction has fewer digits than the plain number. -/
theorem length_significantDigits_plainChars_le (hx : x.isFinite) (h : ∀ k : Int, value x ≠ k)
    {cs : List Char} (hcs : value? cs = some x) :
    (significantDigits (plainChars x)).length ≤ (significantDigits cs).length := by
  cases x with
  | nan => contradiction
  | infinite s => contradiction
  | finite s n hn b =>
    have hfraction := not_unitsPerOne_dvd h
    have h0 : n ≠ 0 := fun h0 => hfraction (h0 ▸ Nat.dvd_zero _)
    obtain ⟨d, t, hround, hdigits⟩ := exists_decimal_of_value? hcs rfl
    have hback := readsBack_of_toBinary64 hround
    have hne : significantDigits cs ≠ [] := by
      intro hnil
      have hzero : d.toRat * unitsPerOne = (0 : Nat) := by
        rw [toRat, ← hdigits, hnil, show digitsValue [] = 0 from rfl]
        simp
      have nearest := readsBack_iff.1 hback
      rw [hzero] at nearest
      exact h0 (nearest.unique (isNearest_natCast onGrid_zero))
    rw [significantDigits_plainChars h]
    calc (digitChars (shortest n).digits).length ≤ (digitChars d.digits).length :=
          length_digits_shortest_le hn h0 hback
      _ ≤ _ := by
        rw [← hdigits]
        exact length_digitChars_digitsValue_le hne

/-- A number is written with a point or an exponent exactly if it is no whole number. -/
theorem isWhole_plainChars_iff (hx : x.isFinite) :
    ('.' ∉ plainChars x ∧ 'e' ∉ plainChars x) ↔ ∃ k : Int, value x = k := by
  constructor
  · rintro ⟨hpoint, hletter⟩
    by_contra hwhole
    rw [not_exists] at hwhole
    cases x with
    | nan => contradiction
    | infinite s => contradiction
    | finite s n hn b =>
      obtain ⟨w, hw, -⟩ := exists_written_magnitudeChars hn
      rw [plainChars_of_value_ne hwhole, ← hw, Written.chars] at hpoint hletter
      rcases w.marked with hfraction | hexponent
      · simp [fractionChars_of_ne_nil hfraction] at hpoint
      · obtain ⟨e, he⟩ := Option.isSome_iff_exists.1 hexponent
        simp [he, exponentPartChars] at hletter
  · rintro ⟨k, hk⟩
    rw [plainChars_of_value_eq hx hk]
    exact ⟨not_mem_intChars (by decide) (by decide), not_mem_intChars (by decide) (by decide)⟩

/-- A plain number reads back as a value that is numerically equal. It has neither a point nor an
exponent exactly if the value is a whole number, which is then written in its digits. Otherwise no
text that reads as the value has fewer significant digits. Two values have the same text exactly if
they are numerically equal. -/
theorem plainChars_faithful (hx : x.isFinite) :
    (∃ y, value? (plainChars x) = some y ∧ y.numEq x) ∧
    (('.' ∉ plainChars x ∧ 'e' ∉ plainChars x) ↔ ∃ k : Int, value x = k) ∧
    (∀ k : Int, value x = k → plainChars x = intChars k) ∧
    ((∀ k : Int, value x ≠ k) → ∀ cs, value? cs = some x →
      (significantDigits (plainChars x)).length ≤ (significantDigits cs).length) ∧
    ∀ y : Binary64, y.isFinite → (plainChars x = plainChars y ↔ x.numEq y) :=
  ⟨⟨_, value?_plainChars_unsignedZero hx,
      (sameValue_unsignedZero x).numEq ((isFinite_unsignedZero x).trans hx)⟩,
    isWhole_plainChars_iff hx, fun _ => plainChars_of_value_eq hx,
    fun h _ => length_significantDigits_plainChars_le hx h, fun _ => plainChars_inj hx⟩

end

/-- The value nearest to one tenth. -/
def nearestTenth : Binary64 := (Decimal.mk 1 (-1)).toBinary64 false

theorem plainChars_faithful_nearestTenth :
    nearestTenth.isFinite ∧ plainChars nearestTenth = "0.1".toList ∧
    (∀ k : Int, value nearestTenth ≠ k) ∧
    ∀ cs, value? cs = some nearestTenth → 1 ≤ (significantDigits cs).length := by
  have hfinite : nearestTenth.isFinite := by decide +kernel
  have hchars : plainChars nearestTenth = "0.1".toList := by decide +kernel
  have hfraction : ∀ k : Int, value nearestTenth ≠ k := by
    intro k hk
    have hnone : nearestTenth.toInt? = none := by decide +kernel
    rw [value_eq_intCast_iff hfinite, hnone] at hk
    contradiction
  refine ⟨hfinite, hchars, hfraction, fun cs hcs => ?_⟩
  have hshortest := (plainChars_faithful hfinite).2.2.2.1 hfraction cs hcs
  rwa [hchars] at hshortest

end PolySolve.Decimal
