import PolySolve.Proofs.Json.Scanned

/-!
# Surrogates in the text of a value

All that is written around the strings of a value is made of characters, and a
string is written with each of its surrogates as it stands. So the text of a
value has bytes if and only if the strings of the value are texts.

* `unpaired_stringPoints_iff`: one string;
* `encodable_array_iff`, `encodable_object_iff`: the strings of containers;
* `unpaired_pieces_iff`: a whole value.
-/

namespace PolySolve.Json

open Text Decimal

/-! ## Strings -/

/-- A surrogate is written as it is; whatever an escape stands for is none. -/
theorem unpaired_escapePoint_iff {p : CodePoint} :
    Unpaired (escapePoint p) ↔ p.isSurrogate = false := by
  refine ⟨fun h => ?_, fun h => (storable_escapePoint h).unpaired⟩
  rw [Bool.eq_false_iff]
  intro hp
  have hvalue : 0xD800 ≤ p.value ∧ p.value < 0xE000 := by
    simpa only [CodePoint.isSurrogate, Bool.and_eq_true, decide_eq_true_eq] using hp
  have hne {n : Nat} (hn : n < 0x80) : p.value ≠ n := by omega
  have hself : escapePoint p = [p] := by
    rw [escapePoint, if_neg (hne (by decide)), if_neg (hne (by decide)), if_neg (hne (by decide)),
      if_neg (hne (by decide)), if_neg (hne (by decide)), if_neg (hne (by decide)),
      if_neg (hne (by decide)), if_neg (by omega)]
  rw [hself] at h
  rw [h p List.mem_cons_self] at hp
  contradiction

theorem unpaired_stringPoints_iff {s : List CodePoint} :
    Unpaired (stringPoints s) ↔ Unpaired s := by
  have hflat : Unpaired (s.flatMap escapePoint) ↔ ∀ p ∈ s, Unpaired (escapePoint p) := by
    simp only [Unpaired, List.mem_flatMap, forall_exists_index, and_imp]
    exact ⟨fun h p hp q hq => h q p hp hq, fun h q p hp hq => h p hp q hq⟩
  simp only [stringPoints, unpaired_append, unpaired_codePoints, true_and, and_true, hflat,
    unpaired_escapePoint_iff]
  exact Iff.rfl

/-! ## Containers -/

theorem encodable_string_iff {s : List CodePoint} : Encodable (.string s) ↔ Unpaired s := by
  refine ⟨fun h => h s (.whole s), fun h t ht => ?_⟩
  cases ht
  exact h

theorem encodable_array_iff {items : List Json} :
    Encodable (.array items) ↔ ∀ v ∈ items, Encodable v := by
  refine ⟨fun h v hv => h.item hv, fun h s hs => ?_⟩
  cases hs with
  | item hv hs => exact h _ hv s hs

theorem encodable_object_iff {ms : Members} :
    Encodable (.object ms) ↔ ∀ m ∈ ms, Unpaired m.1 ∧ Encodable m.2 := by
  refine ⟨fun h m hm => ⟨h.name hm, h.member hm⟩, fun h s hs => ?_⟩
  cases hs with
  | name hm => exact (h _ hm).1
  | member hm hs => exact (h _ hm).2 s hs

/-! ## Values -/

theorem encodable_int (n : Int) : Encodable (.int n) := by
  intro s hs
  cases hs

theorem encodable_float (x : Binary64) : Encodable (.float x) := by
  intro s hs
  cases hs

mutual

/-- The text of a value has bytes if and only if its strings are texts. -/
theorem unpaired_pieces_iff (layout : Layout) (k : Nat) (v : Json) :
    Unpaired (pieces layout k v).flatten ↔ Encodable v := by
  have hplain {cs : List Char} {v : Json} (h : Encodable v) :
      Unpaired [codePoints cs].flatten ↔ Encodable v := by
    rw [List.flatten_singleton]
    exact iff_of_true (unpaired_codePoints cs) h
  match v with
  | .null => exact hplain fun s hs => nomatch hs
  | .bool true => exact hplain fun s hs => nomatch hs
  | .bool false => exact hplain fun s hs => nomatch hs
  | .int n => exact hplain (encodable_int n)
  | .float x => exact hplain (encodable_float x)
  | .string s =>
    simp only [pieces, List.flatten_singleton, unpaired_stringPoints_iff, encodable_string_iff]
  | .array [] => exact hplain fun s hs => nomatch hs
  | .array (v :: vs) =>
    simp only [pieces, List.flatten_append, flatten_leadIn, List.flatten_cons, List.flatten_nil,
      unpaired_append, unpaired_codePoints, true_and, unpaired_pieces_iff layout (k + 1) v,
      unpaired_itemPieces_iff layout (k + 1) vs, encodable_array_iff, List.forall_mem_cons]
    exact and_iff_left (List.forall_mem_nil _)
  | .object [] => exact hplain fun s hs => nomatch hs
  | .object (m :: ms) =>
    simp only [pieces, List.flatten_append, List.flatten_cons, List.flatten_nil,
      unpaired_append, unpaired_codePoints, true_and, unpaired_memberPieces_iff layout (k + 1) m,
      unpaired_restPieces_iff layout (k + 1) ms, encodable_object_iff, List.forall_mem_cons]
    exact and_iff_left (List.forall_mem_nil _)

theorem unpaired_itemPieces_iff (layout : Layout) (k : Nat) (vs : List Json) :
    Unpaired (itemPieces layout k vs).flatten ↔ ∀ v ∈ vs, Encodable v := by
  match vs with
  | [] => exact iff_of_true (List.forall_mem_nil _) (List.forall_mem_nil _)
  | v :: vs =>
    simp only [itemPieces, List.flatten_append, flatten_leadIn, unpaired_append,
      unpaired_codePoints, true_and, unpaired_pieces_iff layout k v,
      unpaired_itemPieces_iff layout k vs, List.forall_mem_cons]

theorem unpaired_memberPieces_iff (layout : Layout) (k : Nat) (m : List CodePoint × Json) :
    Unpaired (memberPieces layout k m).flatten ↔ Unpaired m.1 ∧ Encodable m.2 := by
  match m with
  | (name, v) =>
    simp only [memberPieces, List.flatten_cons, unpaired_append, unpaired_codePoints, true_and,
      unpaired_stringPoints_iff, unpaired_pieces_iff layout k v]

theorem unpaired_restPieces_iff (layout : Layout) (k : Nat) (ms : Members) :
    Unpaired (restPieces layout k ms).flatten ↔ ∀ m ∈ ms, Unpaired m.1 ∧ Encodable m.2 := by
  match ms with
  | [] => exact iff_of_true (List.forall_mem_nil _) (List.forall_mem_nil _)
  | m :: ms =>
    simp only [restPieces, List.flatten_append, List.flatten_cons, unpaired_append,
      unpaired_codePoints, true_and, unpaired_memberPieces_iff layout k m,
      unpaired_restPieces_iff layout k ms, List.forall_mem_cons]

end

end PolySolve.Json
