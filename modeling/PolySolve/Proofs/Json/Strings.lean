import PolySolve.Json.Reader
import PolySolve.Json.Writer
import PolySolve.Proofs.Text.Utf8

/-!
# Strings come back

A string is written between quotes, each of its characters as itself or as an
escape. Reading it gives the characters again, and they are not taken for
halves of pairs:

* `scanUnits_escapeChars`: one character;
* `scanString_stringChars`: a whole string;
* `storable_stringPoints`: what is written has bytes and no carriage return.
-/

namespace PolySolve.Json

open Text

/-! ## What can be stored -/

/-- Code points that have bytes and that reading as lines does not change. -/
def Storable (ps : List CodePoint) : Prop :=
  ∀ p ∈ ps, p.isSurrogate = false ∧ p.value ≠ '\r'.toNat

theorem storable_append {ps qs : List CodePoint} :
    Storable (ps ++ qs) ↔ Storable ps ∧ Storable qs := List.forall_mem_append

theorem Storable.unpaired {ps : List CodePoint} (h : Storable ps) : Unpaired ps :=
  fun p hp => (h p hp).1

theorem storable_codePoints {cs : List Char} (h : '\r' ∉ cs) : Storable (codePoints cs) := by
  intro p hp
  obtain ⟨c, hc, rfl⟩ := List.mem_map.1 hp
  refine ⟨CodePoint.isSurrogate_ofChar c, fun he => ?_⟩
  obtain rfl : c = '\r' := Char.toNat_inj.1 he
  exact h hc

theorem storable_char {c : Char} (h : '\r' ≠ c) : Storable (codePoints [c]) :=
  storable_codePoints fun hm => h (List.mem_singleton.1 hm)

theorem Storable.not_mem_chars {ps : List CodePoint} (h : Storable ps) : '\r' ∉ chars ps := by
  intro hm
  have hpoint : CodePoint.ofChar '\r' ∈ codePoints (chars ps) := List.mem_map.2 ⟨'\r', hm, rfl⟩
  rw [codePoints_chars h.unpaired] at hpoint
  exact (h _ hpoint).2 rfl

/-! ## One character -/

/-- The character of a string as it is written. -/
def escapeChars (c : Char) : List Char := chars (escapePoint (.ofChar c))

theorem hexPoint?_hexChars {n : Nat} (h : n < 0x20) :
    ∃ a b c d, hexChars 4 n = [a, b, c, d] ∧ '\r' ∉ [a, b, c, d] ∧
      (hexPoint? a b c d).map CodePoint.value = some n := by
  refine ⟨_, _, _, _, rfl, ?_⟩
  revert n
  decide

theorem storable_escapePoint {p : CodePoint} (h : p.isSurrogate = false) :
    Storable (escapePoint p) := by
  unfold escapePoint
  split
  · exact storable_codePoints (by decide)
  split
  · exact storable_codePoints (by decide)
  split
  · exact storable_codePoints (by decide)
  split
  · exact storable_codePoints (by decide)
  split
  · exact storable_codePoints (by decide)
  split
  · exact storable_codePoints (by decide)
  rename_i hcr
  split
  · exact storable_codePoints (by decide)
  split
  · rename_i hlt
    obtain ⟨a, b, c, d, hhex, hnot, -⟩ := hexPoint?_hexChars hlt
    rw [hhex]
    refine storable_codePoints ?_
    simp only [List.mem_cons, not_or] at hnot ⊢
    exact ⟨by decide, by decide, hnot⟩
  · exact List.forall_mem_singleton.2 ⟨h, hcr⟩

theorem escapeChars_of_plain {c : Char} (hquote : c ≠ '"') (hslash : c ≠ '\\')
    (hcontrol : ¬ c.toNat < 0x20) : escapeChars c = [c] := by
  have hvalue : (CodePoint.ofChar c).value = c.toNat := rfl
  have hq : c.toNat ≠ '"'.toNat := fun h => hquote (Char.toNat_inj.1 h)
  have hs : c.toNat ≠ '\\'.toNat := fun h => hslash (Char.toNat_inj.1 h)
  have hlow {n : Nat} (hn : n < 0x20) : c.toNat ≠ n := by omega
  rw [escapeChars, escapePoint, hvalue, if_neg hq, if_neg hs, if_neg (hlow (by decide)),
    if_neg (hlow (by decide)), if_neg (hlow (by decide)), if_neg (hlow (by decide)),
    if_neg (hlow (by decide)), if_neg hcontrol]
  exact chars_codePoints [c]

/-- A control character without a letter of its own is written by its number. -/
theorem escapeChars_of_control {c : Char} (hcontrol : c.toNat < 0x20)
    (hshort : c ∉ ['\x08', '\x0c', '\n', '\r', '\t']) :
    escapeChars c = '\\' :: 'u' :: hexChars 4 c.toNat := by
  have hvalue : (CodePoint.ofChar c).value = c.toNat := rfl
  have hne {d : Char} (hd : d ∈ ['\x08', '\x0c', '\n', '\r', '\t']) : c.toNat ≠ d.toNat :=
    fun h => hshort (Char.toNat_inj.1 h ▸ hd)
  have hquote : c.toNat ≠ '"'.toNat := fun h => absurd hcontrol (by rw [h]; decide)
  have hslash : c.toNat ≠ '\\'.toNat := fun h => absurd hcontrol (by rw [h]; decide)
  have hb : c.toNat ≠ 0x08 := hne (d := '\x08') (by decide)
  have hf : c.toNat ≠ 0x0C := hne (d := '\x0c') (by decide)
  rw [escapeChars, escapePoint, hvalue, if_neg hquote, if_neg hslash, if_neg hb, if_neg hf,
    if_neg (hne (by decide)), if_neg (hne (by decide)), if_neg (hne (by decide)), if_pos hcontrol]
  exact chars_codePoints _

section

variable (start : List Char)

theorem scanUnits_shortEscape {e p : Char} (he : e ≠ 'u') (hp : shortEscape? e = some p)
    (rest : List Char) : scanUnits start ('\\' :: e :: rest) =
      (scanUnits start rest).map fun (ps, r) => (.ofChar p :: ps, r) := by
  rw [scanUnits.eq_def]
  dsimp only
  rw [if_neg (by decide), if_pos rfl, if_neg he, hp]

theorem scanUnits_hexEscape {a b c d : Char} {p : CodePoint} (hp : hexPoint? a b c d = some p)
    {rest : List Char} (hne : rest ≠ []) : scanUnits start ('\\' :: 'u' :: a :: b :: c :: d :: rest) =
      (scanUnits start rest).map fun (ps, r) => (p :: ps, r) := by
  obtain ⟨q, r, rfl⟩ := List.exists_cons_of_ne_nil hne
  rw [scanUnits.eq_def]
  dsimp only
  rw [if_neg (by decide), if_pos rfl, if_pos rfl, hp]

theorem scanUnits_plain {c : Char} (hquote : c ≠ '"') (hslash : c ≠ '\\')
    (hcontrol : ¬ c.toNat < 0x20) (rest : List Char) : scanUnits start (c :: rest) =
      (scanUnits start rest).map fun (ps, r) => (.ofChar c :: ps, r) := by
  rw [scanUnits.eq_def]
  dsimp only
  rw [if_neg hquote, if_neg hslash, if_neg hcontrol]

theorem scanUnits_quote (rest : List Char) : scanUnits start ('"' :: rest) = .ok ([], rest) := by
  rw [scanUnits.eq_def]
  exact if_pos rfl

/-- A character is read back from its escape, or from itself. -/
theorem scanUnits_escapeChars (c : Char) {rest : List Char} (hne : rest ≠ []) :
    scanUnits start (escapeChars c ++ rest) =
      (scanUnits start rest).map fun (ps, r) => (.ofChar c :: ps, r) := by
  by_cases hshort : c ∈ ['"', '\\', '\x08', '\x0c', '\n', '\r', '\t']
  · simp only [List.mem_cons, List.not_mem_nil, or_false] at hshort
    rcases hshort with rfl | rfl | rfl | rfl | rfl | rfl | rfl
    all_goals exact scanUnits_shortEscape start (by decide) rfl rest
  · simp only [List.mem_cons, not_or] at hshort
    obtain ⟨hquote, hslash, hrest⟩ := hshort
    by_cases hcontrol : c.toNat < 0x20
    · obtain ⟨a, b, d, e, hhex, -, hp⟩ := hexPoint?_hexChars hcontrol
      obtain ⟨p, hp, hvalue⟩ := Option.map_eq_some_iff.1 hp
      obtain rfl : p = .ofChar c := by
        obtain ⟨n, hn⟩ := p
        obtain rfl : n = c.toNat := hvalue
        rfl
      have hnot : c ∉ ['\x08', '\x0c', '\n', '\r', '\t'] := by
        simpa only [List.mem_cons, not_or] using hrest
      rw [escapeChars_of_control hcontrol hnot, hhex]
      exact scanUnits_hexEscape start hp hne
    · rw [escapeChars_of_plain hquote hslash hcontrol]
      exact scanUnits_plain start hquote hslash hcontrol rest

/-! ## Strings -/

theorem scanUnits_flatMap (cs rest : List Char) :
    scanUnits start (cs.flatMap escapeChars ++ '"' :: rest) = .ok (codePoints cs, rest) := by
  induction cs with
  | nil => exact scanUnits_quote start rest
  | cons c cs ih =>
    rw [List.flatMap_cons, List.append_assoc, scanUnits_escapeChars start c
      (List.append_ne_nil_of_right_ne_nil _ (List.cons_ne_nil _ _)), ih]
    rfl

end

/-- A string as it is written. -/
def stringChars (s : List CodePoint) : List Char := chars (stringPoints s)

theorem chars_flatMap_escapePoint (cs : List Char) :
    chars ((codePoints cs).flatMap escapePoint) = cs.flatMap escapeChars := by
  induction cs with
  | nil => rfl
  | cons c cs ih =>
    show chars (escapePoint (.ofChar c) ++ (codePoints cs).flatMap escapePoint) = _
    rw [chars_append, ih, List.flatMap_cons]
    rfl

theorem stringChars_codePoints (cs : List Char) :
    stringChars (codePoints cs) = '"' :: (cs.flatMap escapeChars ++ ['"']) := by
  rw [stringChars, stringPoints, chars_append, chars_append, chars_flatMap_escapePoint,
    chars_codePoints]
  rfl

theorem storable_stringPoints {s : List CodePoint} (h : Unpaired s) : Storable (stringPoints s) := by
  have hquote : Storable (codePoints ['"']) := storable_char (by decide)
  have hpoints : Storable (s.flatMap escapePoint) := fun p hp => by
    obtain ⟨q, hq, hp⟩ := List.mem_flatMap.1 hp
    exact storable_escapePoint (h q hq) p hp
  exact storable_append.2 ⟨storable_append.2 ⟨hquote, hpoints⟩, hquote⟩

theorem scanString_stringChars {s : List CodePoint} (h : Unpaired s) (rest : List Char) :
    scanString (stringChars s ++ rest) = .ok (s, rest) := by
  have hs : codePoints (chars s) = s := codePoints_chars h
  have hscan := scanUnits_flatMap (stringChars s ++ rest) (chars s) rest
  have hdrop : (stringChars s ++ rest).drop 1 = (chars s).flatMap escapeChars ++ '"' :: rest := by
    rw [← hs, stringChars_codePoints, hs, List.cons_append, List.drop_one, List.tail_cons,
      List.append_assoc, List.singleton_append]
  rw [scanString, hdrop, hscan, hs]
  show Except.ok (joinPairs s, rest) = _
  rw [← hs, joinPairs_codePoints]

theorem stringChars_eq_cons {s : List CodePoint} (h : Unpaired s) :
    ∃ cs, stringChars s = '"' :: cs := by
  rw [← codePoints_chars h, stringChars_codePoints]
  exact ⟨_, rfl⟩

end PolySolve.Json
