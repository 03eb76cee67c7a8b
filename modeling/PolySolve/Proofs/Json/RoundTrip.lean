import PolySolve.Proofs.Json.Members
import PolySolve.Proofs.Json.Plain
import PolySolve.Proofs.Json.Strings

/-!
# Values come back

The indented text of a value is read as the value, if it holds nothing that
cannot be read: strings have no halves of surrogate pairs, integers are not too
long, the names of an object differ, and containers are not too deep within
others.

* `Writable`: such values;
* `storable_pieces`: their texts have bytes and no carriage returns;
* `Writable.readsBack`: what is read from a text that starts with the value's;
* `ofText_valueChars`: a text that is the value's.
-/

namespace PolySolve.Json

open Text

-- The elaborator must not evaluate these powers of two.
attribute [local irreducible] Binary64.overflowUnits Binary64.unitsPerOne

/-- A value that can be written and read, with at most `depth` containers within each other. -/
def Writable : Nat → Json → Prop
  | _, .null => True
  | _, .bool _ => True
  | _, .int n => (Decimal.digitChars n.natAbs).length ≤ maxIntegerDigits
  | _, .float _ => True
  | _, .string s => Unpaired s
  | 0, .array _ => False
  | 0, .object _ => False
  | depth + 1, .array items => ∀ v ∈ items, Writable depth v
  | depth + 1, .object ms =>
    (ms.map Prod.fst).Nodup ∧ ∀ m ∈ ms, Unpaired m.1 ∧ Writable depth m.2

section

variable {depth : Nat} {ms : Members}

theorem writable_put {name : List CodePoint} {v : Json} (h : Writable (depth + 1) (.object ms))
    (hname : Unpaired name) (hv : Writable depth v) :
    Writable (depth + 1) (.object (ms.put name v)) := by
  simp only [Writable] at h ⊢
  refine ⟨Members.nodup_put h.1 name v, fun m hm => ?_⟩
  rcases Members.mem_put hm with hm | rfl
  · exact h.2 m hm
  · exact ⟨hname, hv⟩

theorem writable_override {others : Members} (h : Writable (depth + 1) (.object ms))
    (hothers : ∀ m ∈ others, Unpaired m.1 ∧ Writable depth m.2) :
    Writable (depth + 1) (.object (ms.override others)) := by
  simp only [Writable] at h ⊢
  exact ⟨Members.nodup_override h.1 others, fun m hm =>
    (Members.mem_override hm).elim (h.2 m) (hothers m)⟩

end

/-! ## Texts -/

/-- The line end and the margin at a depth. -/
abbrev lineBreak (k : Nat) : List Char := Layout.indented.lineBreak k

/-- A value at a depth as it is written. -/
def valueChars (k : Nat) (v : Json) : List Char := chars (pieces .indented k v).flatten

/-- The items after the first one. -/
def itemsChars (k : Nat) (vs : List Json) : List Char := chars (itemPieces .indented k vs).flatten

def memberChars (k : Nat) (m : List CodePoint × Json) : List Char :=
  stringChars m.1 ++ (": ".toList ++ valueChars k m.2)

/-- The members after the first one. -/
def restChars (k : Nat) (ms : Members) : List Char := chars (restPieces .indented k ms).flatten

section

variable (k : Nat)

theorem valueChars_array (v : Json) (vs : List Json) : valueChars k (.array (v :: vs)) =
    '[' :: (lineBreak (k + 1) ++ (valueChars (k + 1) v ++ (itemsChars (k + 1) vs ++
      (lineBreak k ++ [']'])))) := by
  simp only [valueChars, itemsChars, pieces, List.flatten_append, flatten_leadIn,
    List.flatten_cons, List.flatten_nil, chars_append, chars_codePoints, List.append_assoc,
    List.append_nil, List.cons_append, lineBreak]

theorem itemsChars_cons (v : Json) (vs : List Json) : itemsChars k (v :: vs) =
    ',' :: (lineBreak k ++ (valueChars k v ++ itemsChars k vs)) := by
  simp only [valueChars, itemsChars, itemPieces, List.flatten_append, flatten_leadIn,
    chars_append, chars_codePoints, List.append_assoc, lineBreak]
  rfl

theorem chars_memberPieces (m : List CodePoint × Json) :
    chars (memberPieces .indented k m).flatten = memberChars k m := by
  obtain ⟨name, v⟩ := m
  simp only [memberPieces, memberChars, List.flatten_cons, chars_append, stringChars, valueChars,
    chars_codePoints]
  rfl

theorem valueChars_object (m : List CodePoint × Json) (ms : Members) :
    valueChars k (.object (m :: ms)) =
      '\x7b' :: (lineBreak (k + 1) ++ (memberChars (k + 1) m ++ (restChars (k + 1) ms ++
        (lineBreak k ++ ['\x7d'])))) := by
  simp only [valueChars, restChars, pieces, List.flatten_append, List.flatten_cons,
    List.flatten_nil, chars_append, chars_codePoints, chars_memberPieces, List.append_assoc,
    List.append_nil, List.cons_append, List.nil_append, lineBreak]

theorem restChars_cons (m : List CodePoint × Json) (ms : Members) : restChars k (m :: ms) =
    ',' :: (lineBreak k ++ (memberChars k m ++ restChars k ms)) := by
  simp only [restChars, restPieces, List.flatten_append, List.flatten_cons, chars_append,
    chars_codePoints, chars_memberPieces, List.append_assoc, List.cons_append, lineBreak]
  rfl

end

/-! ## What is written can be stored -/

theorem storable_lineBreak {k : Nat} : Storable (codePoints (lineBreak k)) := by
  refine storable_codePoints fun h => ?_
  rcases List.mem_cons.1 h with h | h
  · exact absurd h (by decide)
  · exact absurd (List.eq_of_mem_replicate h) (by decide)

theorem storable_numberChars {cs : List Char} (h : ∀ c ∈ cs, Decimal.IsNumberChar c) :
    Storable (codePoints cs) := by
  refine storable_codePoints fun hm => ?_
  rcases h _ hm with hd | hd <;> exact absurd hd (by decide)

theorem storable_floatChars (x : Binary64) : Storable (codePoints (floatChars x)) := by
  cases x with
  | nan =>
    show Storable (codePoints "NaN".toList)
    exact storable_codePoints (by decide)
  | infinite s =>
    cases s with
    | false =>
      show Storable (codePoints "Infinity".toList)
      exact storable_codePoints (by decide)
    | true =>
      show Storable (codePoints "-Infinity".toList)
      exact storable_codePoints (by decide)
  | finite s n hn b =>
    rw [floatChars_finite]
    refine storable_numberChars (List.forall_mem_append.2 ⟨?_, fun _ =>
      Decimal.isNumberChar_of_mem_magnitudeChars hn⟩)
    cases s with
    | false => exact List.forall_mem_nil _
    | true => exact List.forall_mem_singleton.2 (Or.inr (by decide))

theorem storable_itemPieces {vs : List Json} {k : Nat}
    (h : ∀ v ∈ vs, Storable (pieces .indented k v).flatten) :
    Storable (itemPieces .indented k vs).flatten := by
  induction vs with
  | nil => exact List.forall_mem_nil _
  | cons v vs ih =>
    obtain ⟨hv, hvs⟩ := List.forall_mem_cons.1 h
    have comma : Storable (codePoints [',']) := storable_char (by decide)
    simp only [itemPieces, List.flatten_append, flatten_leadIn, codePoints_append, storable_append]
    exact ⟨⟨⟨comma, storable_lineBreak⟩, hv⟩, ih hvs⟩

theorem storable_memberPieces {m : List CodePoint × Json} {k : Nat} (hn : Unpaired m.1)
    (hv : Storable (pieces .indented k m.2).flatten) :
    Storable (memberPieces .indented k m).flatten := by
  obtain ⟨name, v⟩ := m
  simp only [memberPieces, List.flatten_cons, storable_append]
  exact ⟨storable_stringPoints hn, storable_codePoints (by decide), hv⟩

theorem storable_restPieces {ms : Members} {k : Nat}
    (h : ∀ m ∈ ms, Storable (memberPieces .indented k m).flatten) :
    Storable (restPieces .indented k ms).flatten := by
  induction ms with
  | nil => exact List.forall_mem_nil _
  | cons m ms ih =>
    obtain ⟨hm, hms⟩ := List.forall_mem_cons.1 h
    have comma : Storable (codePoints [',']) := storable_char (by decide)
    simp only [restPieces, List.flatten_append, List.flatten_cons, codePoints_append,
      storable_append]
    exact ⟨⟨⟨comma, storable_lineBreak⟩, hm⟩, ih hms⟩

theorem storable_intChars (n : Int) : Storable (codePoints (Decimal.intChars n)) := by
  have digits : ∀ c ∈ Decimal.digitChars n.natAbs, Decimal.IsNumberChar c := fun _ h =>
    Or.inl (Decimal.isDigit_of_mem_digitChars h)
  rw [intChars_eq]
  refine storable_numberChars (List.forall_mem_append.2 ⟨?_, digits⟩)
  split
  · exact List.forall_mem_singleton.2 (Or.inr (by decide))
  · exact List.forall_mem_nil _

/-- The text of a value has bytes and no carriage return. -/
theorem storable_pieces : ∀ {depth : Nat} {v : Json}, Writable depth v → ∀ k,
    Storable (pieces .indented k v).flatten
  | _, .null, _, _ => by
    simp only [pieces, List.flatten_singleton]
    exact storable_codePoints (by decide)
  | _, .bool true, _, _ => by
    simp only [pieces, List.flatten_singleton]
    exact storable_codePoints (by decide)
  | _, .bool false, _, _ => by
    simp only [pieces, List.flatten_singleton]
    exact storable_codePoints (by decide)
  | _, .int n, _, _ => by
    simp only [pieces, List.flatten_singleton]
    exact storable_intChars n
  | _, .float x, _, _ => by
    simp only [pieces, List.flatten_singleton]
    exact storable_floatChars x
  | _, .string s, h, _ => by
    simp only [pieces, List.flatten_singleton]
    simp only [Writable] at h
    exact storable_stringPoints h
  | 0, .array _, h, _ => h.elim
  | 0, .object _, h, _ => h.elim
  | _ + 1, .array [], _, _ => by
    simp only [pieces, List.flatten_singleton]
    exact storable_codePoints (by decide)
  | _ + 1, .object [], _, _ => by
    simp only [pieces, List.flatten_singleton]
    exact storable_codePoints (by decide)
  | depth + 1, .array (v :: vs), h, k => by
    obtain ⟨hv, hvs⟩ := List.forall_mem_cons.1 h
    have opening : Storable (codePoints ('[' :: lineBreak (k + 1))) :=
      List.forall_mem_cons.2 ⟨storable_char (by decide) _ List.mem_cons_self, storable_lineBreak⟩
    simp only [pieces, List.flatten_append, flatten_leadIn, List.flatten_cons, List.flatten_nil,
      List.append_nil, storable_append]
    exact ⟨⟨⟨opening, storable_pieces hv (k + 1)⟩,
      storable_itemPieces fun u hu => storable_pieces (hvs u hu) (k + 1)⟩,
      storable_lineBreak, storable_char (by decide)⟩
  | depth + 1, .object (m :: ms), h, k => by
    obtain ⟨hm, hms⟩ := List.forall_mem_cons.1 h.2
    have member (u : List CodePoint × Json) (hu : Unpaired u.1 ∧ Writable depth u.2) :
        Storable (memberPieces .indented (k + 1) u).flatten :=
      storable_memberPieces hu.1 (storable_pieces hu.2 (k + 1))
    simp only [pieces, List.flatten_append, List.flatten_cons, List.flatten_nil, List.append_nil,
      storable_append]
    exact ⟨⟨⟨storable_char (by decide), storable_lineBreak, member m hm⟩,
      storable_restPieces fun u hu => member u (hms u hu)⟩, storable_lineBreak,
      storable_char (by decide)⟩

/-! ## Steps of the reader -/

theorem skipSpaces_of_start {c : Char} (h : isSpace c = false) (cs : List Char) :
    skipSpaces (c :: cs) = c :: cs := (dropWhile_of_stops (stops_cons h cs)).1

theorem skipSpaces_lineBreak (k : Nat) (cs : List Char) :
    skipSpaces (lineBreak k ++ cs) = skipSpaces cs := by
  have spaces : ∀ c ∈ lineBreak k, isSpace c := by
    refine List.forall_mem_cons.2 ⟨rfl, fun c hc => ?_⟩
    rw [List.eq_of_mem_replicate hc]
    rfl
  exact List.dropWhile_append_of_pos spaces

section

variable {n depth : Nat} {cs rest : List Char}

theorem scanValue_string (cs : List Char) : scanValue (n + 1) depth ('"' :: cs) =
    (scanString ('"' :: cs)).map fun (s, rest) => (.string s, rest) := rfl

theorem scanValue_emptyArray (rest : List Char) :
    scanValue (n + 1) (depth + 1) ('[' :: ']' :: rest) = .ok (.array [], rest) := rfl

theorem scanValue_emptyObject (rest : List Char) :
    scanValue (n + 1) (depth + 1) ('\x7b' :: '\x7d' :: rest) = .ok (.object [], rest) := rfl

theorem scanValue_array {c : Char} (h : skipSpaces rest = c :: cs) (hc : c ≠ ']') :
    scanValue (n + 1) (depth + 1) ('[' :: rest) =
      (scanItems n depth (c :: cs)).map fun (items, rest) => (.array items, rest) := by
  rw [scanValue.eq_def]
  simp only [h]
  split
  · contradiction
  · rename_i heq _
    exact absurd (List.cons.inj heq).1 hc
  · rename_i heq _
    obtain rfl := Nat.succ.inj heq
    rfl

theorem scanValue_object {c : Char} (h : skipSpaces rest = c :: cs) (hc : c ≠ '\x7d') :
    scanValue (n + 1) (depth + 1) ('\x7b' :: rest) =
      (scanMembers n depth (c :: cs)).map fun (ms, rest) =>
        (.object (Members.ofWritten ms), rest) := by
  rw [scanValue.eq_def]
  simp only [h]
  split
  · contradiction
  · rename_i heq _
    exact absurd (List.cons.inj heq).1 hc
  · rename_i heq _
    obtain rfl := Nat.succ.inj heq
    rfl

/-- What starts as no string, array or object is a word or a number. -/
theorem scanValue_plain {c : Char} (hs : c ≠ '"') (ha : c ≠ '[') (ho : c ≠ '\x7b')
    (cs : List Char) : scanValue (n + 1) depth (c :: cs) = scanPlain (c :: cs) := by
  rw [scanValue.eq_def]
  dsimp only
  split
  · rename_i heq
    exact absurd (List.cons.inj heq).1 hs
  · rename_i heq
    exact absurd (List.cons.inj heq).1 ha
  · rename_i heq
    exact absurd (List.cons.inj heq).1 ho
  · rfl

variable {v : Json} {r r' r'' : List Char}

theorem scanItems_last (hv : scanValue n depth cs = .ok (v, r))
    (hr : skipSpaces r = ']' :: rest) : scanItems (n + 1) depth cs = .ok ([v], rest) := by
  rw [scanItems.eq_def]
  dsimp only
  rw [hv]
  dsimp only [bind, Except.bind]
  rw [hr]
  rfl

theorem scanItems_next {vs : List Json} (hv : scanValue n depth cs = .ok (v, r))
    (hr : skipSpaces r = ',' :: r') (hvs : scanItems n depth (skipSpaces r') = .ok (vs, rest)) :
    scanItems (n + 1) depth cs = .ok (v :: vs, rest) := by
  rw [scanItems.eq_def]
  dsimp only
  rw [hv]
  dsimp only [bind, Except.bind]
  rw [hr]
  show (scanItems n depth (skipSpaces r')).bind _ = _
  rw [hvs]
  rfl

theorem scanMembers_last {name : List CodePoint}
    (hn : scanString ('"' :: cs) = .ok (name, r)) (hc : skipSpaces r = ':' :: r')
    (hv : scanValue n depth (skipSpaces r') = .ok (v, r''))
    (he : skipSpaces r'' = '\x7d' :: rest) :
    scanMembers (n + 1) depth ('"' :: cs) = .ok ([(name, v)], rest) := by
  rw [scanMembers.eq_def]
  simp only [hn]
  dsimp only [bind, Except.bind]
  rw [hc]
  show (scanValue n depth (skipSpaces r')).bind _ = _
  rw [hv]
  dsimp only [Except.bind]
  rw [he]
  rfl

theorem scanMembers_next {name : List CodePoint} {ms : Members}
    (hn : scanString ('"' :: cs) = .ok (name, r)) (hc : skipSpaces r = ':' :: r')
    (hv : scanValue n depth (skipSpaces r') = .ok (v, r''))
    (he : skipSpaces r'' = ',' :: rest)
    {rest' : List Char} (hms : scanMembers n depth (skipSpaces rest) = .ok (ms, rest')) :
    scanMembers (n + 1) depth ('"' :: cs) = .ok ((name, v) :: ms, rest') := by
  rw [scanMembers.eq_def]
  simp only [hn]
  dsimp only [bind, Except.bind]
  rw [hc]
  show (scanValue n depth (skipSpaces r')).bind _ = _
  rw [hv]
  dsimp only [Except.bind]
  rw [he]
  show (scanMembers n depth (skipSpaces rest)).bind _ = _
  rw [hms]
  rfl

end

/-! ## Reading back -/

/-- How a value starts: with no space and with nothing that closes a container. -/
def IsStart (c : Char) : Prop := isSpace c = false ∧ c ≠ ']' ∧ c ≠ '\x7d' ∧ c ≠ '\uFEFF'

/-- How a word or a number starts. -/
def IsPlainStart (c : Char) : Prop := c.isDigit ∨ c ∈ ['-', 'n', 't', 'f', 'N', 'I']

theorem IsPlainStart.ne {c d : Char} (h : IsPlainStart c) (hd : d.isDigit = false)
    (hw : d ∉ ['-', 'n', 't', 'f', 'N', 'I']) : c ≠ d := by
  rintro rfl
  rcases h with h | h
  · rw [hd] at h
    contradiction
  · exact hw h

theorem IsPlainStart.isStart {c : Char} (h : IsPlainStart c) : IsStart c := by
  refine ⟨?_, h.ne (by decide) (by decide), h.ne (by decide) (by decide),
    h.ne (by decide) (by decide)⟩
  simp only [isSpace, Bool.or_eq_false_iff, beq_eq_false_iff_ne]
  exact ⟨⟨⟨h.ne (by decide) (by decide), h.ne (by decide) (by decide)⟩,
    h.ne (by decide) (by decide)⟩, h.ne (by decide) (by decide)⟩

/-- A text starts with the value's, and the value is read from it. -/
structure ReadsBack (depth : Nat) (v : Json) : Prop where
  start : ∀ k, ∃ c cs, valueChars k v = c :: cs ∧ IsStart c
  scan : ∀ {k n : Nat} {rest : List Char}, Delimited rest → 2 * (valueChars k v).length ≤ n →
    scanValue n depth (valueChars k v ++ rest) = .ok (v, rest)

/-- A value with one text at all depths reads back if one step of the reader reads the text. -/
theorem readsBack_of_text {depth : Nat} {v : Json} {text : List Char}
    (htext : ∀ k, valueChars k v = text) (hstart : ∃ c cs, text = c :: cs ∧ IsStart c)
    (hscan : ∀ {n : Nat} {rest : List Char}, Delimited rest →
      scanValue (n + 1) depth (text ++ rest) = .ok (v, rest)) :
    ReadsBack depth v := by
  obtain ⟨c, cs, rfl, hc⟩ := hstart
  refine ⟨fun k => ⟨c, cs, htext k, hc⟩, fun {k n rest} hrest hn => ?_⟩
  rw [htext, List.length_cons] at hn
  obtain ⟨m, rfl⟩ : ∃ m, n = m + 1 := ⟨n - 1, by omega⟩
  rw [htext]
  exact hscan hrest

/-- A word or a number reads back if it does as such. -/
theorem readsBack_of_plain {depth : Nat} {v : Json} {text : List Char}
    (htext : ∀ k, valueChars k v = text) (hstart : ∃ c cs, text = c :: cs ∧ IsPlainStart c)
    (hscan : ∀ {rest : List Char}, Delimited rest → scanPlain (text ++ rest) = .ok (v, rest)) :
    ReadsBack depth v := by
  obtain ⟨c, cs, rfl, hc⟩ := hstart
  refine readsBack_of_text htext ⟨c, cs, rfl, hc.isStart⟩ fun {n rest} hrest => ?_
  rw [List.cons_append, scanValue_plain (hc.ne (by decide) (by decide))
    (hc.ne (by decide) (by decide)) (hc.ne (by decide) (by decide))]
  exact hscan hrest

theorem exists_plainStart_intChars (n : Int) :
    ∃ c cs, Decimal.intChars n = c :: cs ∧ IsPlainStart c := by
  obtain ⟨c, cs, hc, hd⟩ := Numeral.exists_digit_of_ne_nil (Decimal.digitChars_ne_nil n.natAbs)
    (fun c => Decimal.isDigit_of_mem_digitChars) []
  rw [List.append_nil] at hc
  rw [intChars_eq, hc]
  split
  · exact ⟨_, _, rfl, Or.inr (by decide)⟩
  · exact ⟨_, _, rfl, Or.inl hd⟩

theorem exists_plainStart_floatChars (x : Binary64) :
    ∃ c cs, floatChars x = c :: cs ∧ IsPlainStart c := by
  cases x with
  | nan => exact ⟨_, _, rfl, Or.inr (by decide)⟩
  | infinite s => cases s <;> exact ⟨_, _, rfl, Or.inr (by decide)⟩
  | finite s n hn b =>
    obtain ⟨w, hw, -⟩ := Decimal.exists_written_magnitudeChars hn
    obtain ⟨c, cs, hc⟩ := List.exists_cons_of_ne_nil w.whole_ne_nil
    have hd : c.isDigit := w.whole_digit c (hc ▸ List.mem_cons_self)
    rw [floatChars_finite, ← hw, Decimal.Written.chars, hc]
    split
    · exact ⟨_, _, rfl, Or.inr (by decide)⟩
    · exact ⟨_, _, rfl, Or.inl hd⟩

theorem valueChars_plain (k : Nat) {v : Json} {text : List Char}
    (h : pieces .indented k v = [codePoints text]) : valueChars k v = text := by
  rw [valueChars, h, List.flatten_singleton, chars_codePoints]

/-- What closes a container, or comes before the next item, ends a value. -/
theorem delimited_lineBreak (k : Nat) (rest : List Char) : Delimited (lineBreak k ++ rest) :=
  delimited_cons (Or.inr rfl) _

theorem delimited_itemsChars (k : Nat) (vs : List Json) {rest : List Char} (h : Delimited rest) :
    Delimited (itemsChars k vs ++ rest) := by
  cases vs with
  | nil => exact h
  | cons v vs =>
    rw [itemsChars_cons]
    exact delimited_cons (Or.inl rfl) _

theorem delimited_restChars (k : Nat) (ms : Members) {rest : List Char} (h : Delimited rest) :
    Delimited (restChars k ms ++ rest) := by
  cases ms with
  | nil => exact h
  | cons m ms =>
    rw [restChars_cons]
    exact delimited_cons (Or.inl rfl) _

theorem skipSpaces_closing {c : Char} (h : isSpace c = false) (k : Nat) (rest : List Char) :
    skipSpaces (lineBreak k ++ c :: rest) = c :: rest := by
  rw [skipSpaces_lineBreak, skipSpaces_of_start h]

theorem ReadsBack.skipSpaces {depth : Nat} {v : Json} (h : ReadsBack depth v) (k : Nat)
    (rest : List Char) : skipSpaces (valueChars k v ++ rest) = valueChars k v ++ rest := by
  obtain ⟨c, cs, hc, hstart⟩ := h.start k
  rw [hc]
  exact skipSpaces_of_start hstart.1 _

/-- The items of an array. The induction is on those after the first one; each takes two steps of
the reader for itself and its comma, which are at least two characters. -/
theorem scanItems_chars {depth k j : Nat} {rest : List Char} {vs : List Json} {v : Json} {n : Nat}
    (hv : ReadsBack depth v) (hvs : ∀ u ∈ vs, ReadsBack depth u)
    (hn : 2 * (valueChars k v ++ itemsChars k vs).length < n) :
    scanItems n depth (valueChars k v ++ (itemsChars k vs ++ (lineBreak j ++ ']' :: rest))) =
      .ok (v :: vs, rest) := by
  induction vs generalizing v n with
  | nil =>
    obtain ⟨m, rfl⟩ : ∃ m, n = m + 1 := ⟨n - 1, by omega⟩
    rw [List.length_append] at hn
    have hscan : scanValue m depth (valueChars k v ++ (lineBreak j ++ ']' :: rest)) =
        .ok (v, lineBreak j ++ ']' :: rest) := hv.scan (delimited_lineBreak _ _) (by omega)
    exact scanItems_last hscan (skipSpaces_closing (by decide) j rest)
  | cons u us ih =>
    obtain ⟨hu, hus⟩ := List.forall_mem_cons.1 hvs
    obtain ⟨m, rfl⟩ : ∃ m, n = m + 1 := ⟨n - 1, by omega⟩
    obtain ⟨c, cs, hc, -⟩ := hv.start k
    have hpos : 0 < (valueChars k v).length := by simp [hc]
    simp only [itemsChars_cons, List.length_append, List.length_cons] at hn
    have hlater : scanItems m depth (valueChars k u ++ (itemsChars k us ++
        (lineBreak j ++ ']' :: rest))) = .ok (u :: us, rest) := by
      refine ih hu hus ?_
      rw [List.length_append]
      omega
    have hscan := hv.scan (k := k) (n := m)
      (delimited_itemsChars k (u :: us) (delimited_lineBreak j (']' :: rest))) (by omega)
    rw [itemsChars_cons, List.cons_append, List.append_assoc, List.append_assoc] at hscan ⊢
    refine scanItems_next hscan (skipSpaces_of_start (by decide) _) ?_
    rw [skipSpaces_lineBreak, hu.skipSpaces, hlater]

/-- The name and the value of a member. -/
theorem scan_memberChars {depth k n : Nat} {m : List CodePoint × Json} {tail : List Char}
    (hname : Unpaired m.1) (hv : ReadsBack depth m.2) (htail : Delimited tail)
    (hn : 2 * (memberChars k m).length ≤ n) :
    ∃ cs r, memberChars k m ++ tail = '"' :: cs ∧
      scanString ('"' :: cs) = .ok (m.1, ':' :: r) ∧
      scanValue n depth (skipSpaces r) = .ok (m.2, tail) := by
  obtain ⟨name, v⟩ := m
  obtain ⟨cs, hcs⟩ := stringChars_eq_cons hname
  have hstring := scanString_stringChars hname (": ".toList ++ (valueChars k v ++ tail))
  have hmember : memberChars k (name, v) ++ tail =
      '"' :: (cs ++ (": ".toList ++ (valueChars k v ++ tail))) := by
    rw [memberChars, hcs, List.append_assoc, List.append_assoc]
    rfl
  have hspace : skipSpaces (' ' :: (valueChars k v ++ tail)) = valueChars k v ++ tail :=
    hv.skipSpaces k tail
  refine ⟨_, ' ' :: (valueChars k v ++ tail), hmember, ?_, ?_⟩
  · rw [hcs] at hstring
    exact hstring
  · rw [hspace]
    refine hv.scan htail ?_
    simp only [memberChars, List.length_append] at hn
    show 2 * (valueChars k v).length ≤ n
    omega

/-- The members of an object, by the same induction as the items of an array. -/
theorem scanMembers_chars {depth k j : Nat} {rest : List Char} {ms : Members}
    {m : List CodePoint × Json} {n : Nat} (hm : Unpaired m.1 ∧ ReadsBack depth m.2)
    (hms : ∀ u ∈ ms, Unpaired u.1 ∧ ReadsBack depth u.2)
    (hn : 2 * (memberChars k m ++ restChars k ms).length < n) :
    scanMembers n depth (memberChars k m ++ (restChars k ms ++ (lineBreak j ++ '\x7d' :: rest))) =
      .ok (m :: ms, rest) := by
  induction ms generalizing m n with
  | nil =>
    obtain ⟨l, rfl⟩ : ∃ l, n = l + 1 := ⟨n - 1, by omega⟩
    rw [List.length_append] at hn
    obtain ⟨cs, r, hcs, hstring, hscan⟩ := scan_memberChars hm.1 hm.2
      (delimited_lineBreak j ('\x7d' :: rest)) (show 2 * (memberChars k m).length ≤ l by omega)
    show scanMembers (l + 1) depth (memberChars k m ++ (lineBreak j ++ '\x7d' :: rest)) = _
    rw [hcs]
    exact scanMembers_last hstring (skipSpaces_of_start (by decide) _) hscan
      (skipSpaces_closing (by decide) j rest)
  | cons u us ih =>
    obtain ⟨hu, hus⟩ := List.forall_mem_cons.1 hms
    obtain ⟨l, rfl⟩ : ∃ l, n = l + 1 := ⟨n - 1, by omega⟩
    have hpos : 0 < (memberChars k m).length := by
      obtain ⟨cs, hcs⟩ := stringChars_eq_cons hm.1
      simp [memberChars, hcs]
    simp only [restChars_cons, List.length_append, List.length_cons] at hn
    have hlater : scanMembers l depth (memberChars k u ++ (restChars k us ++
        (lineBreak j ++ '\x7d' :: rest))) = .ok (u :: us, rest) := by
      refine ih hu hus ?_
      rw [List.length_append]
      omega
    have hspaces : skipSpaces (memberChars k u ++ (restChars k us ++
        (lineBreak j ++ '\x7d' :: rest))) = memberChars k u ++ (restChars k us ++
        (lineBreak j ++ '\x7d' :: rest)) := by
      obtain ⟨cs, hcs⟩ := stringChars_eq_cons hu.1
      rw [memberChars, hcs]
      exact skipSpaces_of_start (by decide) _
    obtain ⟨cs, r, hcs, hstring, hscan⟩ := scan_memberChars hm.1 hm.2
      (delimited_restChars k (u :: us) (delimited_lineBreak j ('\x7d' :: rest)))
      (show 2 * (memberChars k m).length ≤ l by omega)
    rw [hcs]
    rw [restChars_cons, List.cons_append, List.append_assoc, List.append_assoc] at hscan
    refine scanMembers_next hstring (skipSpaces_of_start (by decide) _) hscan
      (skipSpaces_of_start (by decide) _) ?_
    rw [skipSpaces_lineBreak, hspaces, hlater]

/-! ## Whole values -/

theorem readsBack_array {depth : Nat} {v : Json} {vs : List Json}
    (h : ∀ u ∈ v :: vs, ReadsBack depth u) : ReadsBack (depth + 1) (.array (v :: vs)) := by
  obtain ⟨hv, hvs⟩ := List.forall_mem_cons.1 h
  refine ⟨fun k => ⟨_, _, valueChars_array k v vs, by decide, by decide, by decide, by decide⟩,
    fun {k n rest} _ hn => ?_⟩
  rw [valueChars_array] at hn ⊢
  simp only [List.length_cons, List.length_append] at hn
  obtain ⟨m, rfl⟩ : ∃ m, n = m + 1 := ⟨n - 1, by omega⟩
  simp only [List.cons_append, List.append_assoc, List.nil_append]
  have hstart := hv.skipSpaces (k + 1) (itemsChars (k + 1) vs ++ (lineBreak k ++ ']' :: rest))
  obtain ⟨c, cs, hc, hs⟩ := hv.start (k + 1)
  have hitems : scanItems m depth (valueChars (k + 1) v ++ (itemsChars (k + 1) vs ++
      (lineBreak k ++ ']' :: rest))) = .ok (v :: vs, rest) := by
    refine scanItems_chars hv hvs ?_
    rw [List.length_append]
    omega
  rw [hc, List.cons_append] at hstart hitems
  rw [scanValue_array (by rw [skipSpaces_lineBreak, hc, List.cons_append, hstart]) hs.2.1, hitems]
  rfl

theorem readsBack_object {depth : Nat} {m : List CodePoint × Json} {ms : Members}
    (hnames : ((m :: ms).map Prod.fst).Nodup)
    (h : ∀ u ∈ m :: ms, Unpaired u.1 ∧ ReadsBack depth u.2) :
    ReadsBack (depth + 1) (.object (m :: ms)) := by
  obtain ⟨hm, hms⟩ := List.forall_mem_cons.1 h
  refine ⟨fun k => ⟨_, _, valueChars_object k m ms, by decide, by decide, by decide, by decide⟩,
    fun {k n rest} _ hn => ?_⟩
  rw [valueChars_object] at hn ⊢
  simp only [List.length_cons, List.length_append] at hn
  obtain ⟨l, rfl⟩ : ∃ l, n = l + 1 := ⟨n - 1, by omega⟩
  simp only [List.cons_append, List.append_assoc, List.nil_append]
  have hmembers : scanMembers l depth (memberChars (k + 1) m ++ (restChars (k + 1) ms ++
      (lineBreak k ++ '\x7d' :: rest))) = .ok (m :: ms, rest) := by
    refine scanMembers_chars hm hms ?_
    rw [List.length_append]
    omega
  obtain ⟨cs, hcs⟩ : ∃ cs, memberChars (k + 1) m = '"' :: cs := by
    obtain ⟨cs, hcs⟩ := stringChars_eq_cons hm.1
    exact ⟨_, by rw [memberChars, hcs]; rfl⟩
  rw [hcs, List.cons_append] at hmembers ⊢
  rw [scanValue_object (by rw [skipSpaces_lineBreak]; exact skipSpaces_of_start (by decide) _)
    (by decide), hmembers]
  show Except.ok (object (Members.ofWritten (m :: ms)), rest) = _
  rw [Members.ofWritten_of_nodup hnames]

theorem readsBack_string (depth : Nat) {s : List CodePoint} (h : Unpaired s) :
    ReadsBack depth (.string s) := by
  have hchars (k : Nat) : valueChars k (.string s) = stringChars s := by
    rw [valueChars, pieces, List.flatten_singleton, stringChars]
  obtain ⟨cs, hcs⟩ := stringChars_eq_cons h
  refine readsBack_of_text hchars ⟨'"', cs, hcs, by decide, by decide, by decide, by decide⟩
    fun {n rest} _ => ?_
  have hstring := scanString_stringChars h rest
  rw [hcs, List.cons_append] at hstring ⊢
  rw [scanValue_string, hstring]
  rfl

theorem readsBack_emptyArray (depth : Nat) : ReadsBack (depth + 1) (.array []) := by
  have hchars (k : Nat) : valueChars k (.array []) = ['[', ']'] :=
    valueChars_plain k (by rw [pieces]; rfl)
  exact readsBack_of_text hchars ⟨_, _, rfl, by decide, by decide, by decide, by decide⟩
    fun {_ rest} _ => scanValue_emptyArray rest

theorem readsBack_emptyObject (depth : Nat) : ReadsBack (depth + 1) (.object []) := by
  have hchars (k : Nat) : valueChars k (.object []) = ['\x7b', '\x7d'] :=
    valueChars_plain k (by rw [pieces]; rfl)
  exact readsBack_of_text hchars ⟨_, _, rfl, by decide, by decide, by decide, by decide⟩
    fun {_ rest} _ => scanValue_emptyObject rest

/-- A value that can be written is read back. -/
theorem Writable.readsBack : ∀ {depth : Nat} {v : Json}, Writable depth v → ReadsBack depth v
  | _, .null, _ => readsBack_of_plain (fun k => valueChars_plain k rfl)
      ⟨_, _, rfl, Or.inr (by decide)⟩ fun {rest} _ => scanPlain_word (by simp [words]) rest
  | _, .bool true, _ => readsBack_of_plain (fun k => valueChars_plain k rfl)
      ⟨_, _, rfl, Or.inr (by decide)⟩ fun {rest} _ => scanPlain_word (by simp [words]) rest
  | _, .bool false, _ => readsBack_of_plain (fun k => valueChars_plain k rfl)
      ⟨_, _, rfl, Or.inr (by decide)⟩ fun {rest} _ => scanPlain_word (by simp [words]) rest
  | _, .int n, h => by
    simp only [Writable] at h
    exact readsBack_of_plain (fun k => valueChars_plain k (by rw [pieces]))
      (exists_plainStart_intChars n) (scanPlain_int h)
  | _, .float x, _ => readsBack_of_plain (fun k => valueChars_plain k (by rw [pieces]))
      (exists_plainStart_floatChars x) (scanPlain_float x)
  | depth, .string s, h => by
    simp only [Writable] at h
    exact readsBack_string depth h
  | 0, .array _, h => h.elim
  | 0, .object _, h => h.elim
  | depth + 1, .array [], _ => readsBack_emptyArray depth
  | depth + 1, .object [], _ => readsBack_emptyObject depth
  | depth + 1, .array (v :: vs), h => by
    simp only [Writable] at h
    exact readsBack_array fun u hu => (h u hu).readsBack
  | depth + 1, .object (m :: ms), h => by
    simp only [Writable] at h
    exact readsBack_object h.1 fun u hu => ⟨(h.2 u hu).1, (h.2 u hu).2.readsBack⟩

theorem scan_valueChars {depth : Nat} {v : Json} (h : Writable depth v) :
    scan depth (valueChars 0 v) = .ok v := by
  obtain ⟨c, cs, hc, hs⟩ := h.readsBack.start 0
  have hspaces : skipSpaces (c :: cs) = c :: cs := skipSpaces_of_start hs.1 cs
  have hscan := h.readsBack.scan (k := 0) delimited_nil
    (Nat.le_add_right (2 * (valueChars 0 v).length) 2)
  rw [List.append_nil, hc] at hscan
  rw [hc]
  unfold scan
  split
  · rename_i heq
    exact absurd (List.cons.inj heq).1 hs.2.2.2
  · rw [hspaces, hscan]
    rfl

/-- The text of a value that can be written stands for the value. -/
theorem ofText_valueChars {depth : Nat} {v : Json} (h : Writable depth v) :
    ofText depth (valueChars 0 v) = .ok v := by
  rw [ofText, scan_valueChars h]

end PolySolve.Json
