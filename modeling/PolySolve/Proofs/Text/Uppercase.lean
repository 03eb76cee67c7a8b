import PolySolve.Proofs.Text.Runs
import PolySolve.Text.Blank
import PolySolve.Text.Uppercase

/-!
# Upper case and blanks

A blank is its own capital, and no capital of another character has a blank in
it. So it makes no difference whether a text is trimmed before or after it is
put in upper case.

The equals sign is its own capital too, and no other character has it in its
capital. So the part of a text before the first equals sign can be put in upper
case on its own.

* `upperChar_of_blank`, `not_blank_of_mem_upperChar`: single characters;
* `trim_upper`: whole texts;
* `takeWhile_upper`: texts up to their first equals sign.
-/

namespace PolySolve.Text

/-! ## Tables -/

/-- No code point from the first to the last is blank. -/
def BlankFree (first last : Nat) : Prop := ∀ b ∈ blankRuns, b.2 < first ∨ last < b.1

instance (first last : Nat) : Decidable (BlankFree first last) :=
  inferInstanceAs (Decidable (∀ b ∈ blankRuns, _))

theorem BlankFree.inRuns {first last n : Nat} (h : BlankFree first last) (hfirst : first ≤ n)
    (hlast : n ≤ last) : inRuns blankRuns n = false := by
  rw [Text.inRuns, List.any_eq_false]
  intro b hb hn
  simp only [Bool.and_eq_true, decide_eq_true_eq] at hn
  have := h b hb
  omega

theorem blankFree_capitalRuns :
    ∀ r ∈ capitalRuns, BlankFree r.1 r.2.1 ∧
      BlankFree (r.1 + r.2.2.2).toNat (r.2.1 + r.2.2.2).toNat := by
  decide +kernel

theorem blankFree_capitalExpansions :
    ∀ r ∈ capitalExpansions, BlankFree r.1 r.1 ∧ r.2 ≠ [] ∧ ∀ n ∈ r.2, BlankFree n n := by
  decide +kernel

theorem isBlank_ofNat {n : Nat} (h : inRuns blankRuns n = false) :
    isBlank (Char.ofNat n) = false := by
  unfold Char.ofNat
  by_cases hvalid : n.isValidChar
  · rw [dif_pos hvalid]
    exact h
  · rw [dif_neg hvalid]
    decide

/-! ## Single characters -/

theorem mem_of_lookup {n : Nat} {ns : List Nat} {rs : List (Nat × List Nat)}
    (h : rs.lookup n = some ns) : (n, ns) ∈ rs := by
  induction rs with
  | nil => contradiction
  | cons r rs ih =>
    obtain ⟨m, ms⟩ := r
    rw [List.lookup_cons] at h
    split at h
    · rename_i heq
      obtain rfl := Option.some.inj h
      rw [beq_iff_eq.1 heq]
      exact List.mem_cons_self
    · exact List.mem_cons_of_mem _ (ih h)

theorem exists_run_of_capital? {n m : Nat} (h : capital? n = some m) :
    ∃ r ∈ capitalRuns, r.1 ≤ n ∧ n ≤ r.2.1 ∧ m = (n + r.2.2.2).toNat := by
  obtain ⟨r, hr, h⟩ := List.exists_of_findSome?_eq_some h
  dsimp only at h
  split at h
  · rename_i hn
    exact ⟨r, hr, hn.1, hn.2.1, (Option.some.inj h).symm⟩
  · contradiction

/-- A blank is its own capital. -/
theorem upperChar_of_blank {c : Char} (h : isBlank c) : upperChar c = [c] := by
  have hruns : inRuns blankRuns c.toNat = true := h
  unfold upperChar
  split
  · rename_i m hm
    obtain ⟨r, hr, hfirst, hlast, -⟩ := exists_run_of_capital? hm
    rw [(blankFree_capitalRuns r hr).1.inRuns hfirst hlast] at hruns
    contradiction
  · split
    · rename_i ns hns
      have hfree := (blankFree_capitalExpansions _ (mem_of_lookup hns)).1
      rw [hfree.inRuns (Nat.le_refl _) (Nat.le_refl _)] at hruns
      contradiction
    · rfl

/-- The capital of any other character has no blank in it. -/
theorem not_blank_of_mem_upperChar {c d : Char} (h : isBlank c = false) (hd : d ∈ upperChar c) :
    isBlank d = false := by
  unfold upperChar at hd
  split at hd
  · rename_i m hm
    obtain ⟨r, hr, hfirst, hlast, rfl⟩ := exists_run_of_capital? hm
    rw [List.mem_singleton] at hd
    subst hd
    exact isBlank_ofNat ((blankFree_capitalRuns r hr).2.inRuns (by omega) (by omega))
  · split at hd
    · rename_i ns hns
      obtain ⟨n, hn, rfl⟩ := List.mem_map.1 hd
      have hfree := (blankFree_capitalExpansions _ (mem_of_lookup hns)).2.2 n hn
      exact isBlank_ofNat (hfree.inRuns (Nat.le_refl n) (Nat.le_refl n))
    · rw [List.mem_singleton.1 hd]
      exact h

theorem upperChar_ne_nil (c : Char) : upperChar c ≠ [] := by
  unfold upperChar
  split
  · exact List.cons_ne_nil _ _
  · split
    · rename_i ns hns
      have hne := (blankFree_capitalExpansions _ (mem_of_lookup hns)).2.1
      exact fun h => hne (List.map_eq_nil_iff.1 h)
    · exact List.cons_ne_nil _ _

/-! ## Whole texts -/

/-- Blanks are dropped from the front before or after each character is replaced by some, if blanks
are replaced by themselves and all others by characters that are not blank. -/
theorem dropWhile_flatMap {f : Char → List Char} (hblank : ∀ c, isBlank c → f c = [c])
    (hother : ∀ c, isBlank c = false → f c ≠ [] ∧ ∀ d ∈ f c, isBlank d = false)
    (cs : List Char) : (cs.flatMap f).dropWhile isBlank = (cs.dropWhile isBlank).flatMap f := by
  induction cs with
  | nil => rfl
  | cons c cs ih =>
    cases hc : isBlank c with
    | true =>
      rw [List.flatMap_cons, hblank c hc, List.singleton_append, List.dropWhile_cons_of_pos hc,
        List.dropWhile_cons_of_pos hc, ih]
    | false =>
      obtain ⟨hne, hall⟩ := hother c hc
      obtain ⟨d, ds, hd⟩ := List.exists_cons_of_ne_nil hne
      have hdblank : isBlank d = false := hall d (hd ▸ List.mem_cons_self)
      rw [List.dropWhile_cons_of_neg (by simp [hc]), List.flatMap_cons, hd, List.cons_append,
        List.dropWhile_cons_of_neg (by simp [hdblank])]

theorem trimStart_upper (cs : List Char) : trimStart (upper cs) = upper (trimStart cs) :=
  dropWhile_flatMap (fun _ => upperChar_of_blank)
    (fun c hc => ⟨upperChar_ne_nil c, fun _ => not_blank_of_mem_upperChar hc⟩) cs

theorem trimEnd_upper (cs : List Char) : trimEnd (upper cs) = upper (trimEnd cs) := by
  -- From the end, each capital is met with its characters in reverse.
  have hreverse : (upper cs).reverse = cs.reverse.flatMap fun c => (upperChar c).reverse :=
    List.reverse_flatMap
  have hdrop := dropWhile_flatMap (f := fun c => (upperChar c).reverse)
    (fun c hc => by rw [upperChar_of_blank hc, List.reverse_singleton])
    (fun c hc => ⟨fun h => upperChar_ne_nil c (List.reverse_eq_nil_iff.1 h),
      fun d hd => not_blank_of_mem_upperChar hc (List.mem_reverse.1 hd)⟩) cs.reverse
  unfold trimEnd
  rw [hreverse, hdrop, upper, List.flatMap_reverse]
  rfl

/-- Trimming and upper case can be exchanged. -/
theorem trim_upper (cs : List Char) : trim (upper cs) = upper (trim cs) := by
  rw [trim, trimStart_upper, trimEnd_upper, trim]

/-! ## The equals sign -/

theorem capitalRuns_miss_equals :
    ∀ r ∈ capitalRuns, (r.2.1 + r.2.2.2).toNat < 61 ∨ 61 < (r.1 + r.2.2.2).toNat := by
  decide +kernel

theorem capitalExpansions_miss_equals : ∀ r ∈ capitalExpansions, 61 ∉ r.2 := by decide +kernel

theorem eq_of_ofNat_eq {n : Nat} (h : Char.ofNat n = '=') : n = 61 := by
  unfold Char.ofNat at h
  by_cases hvalid : n.isValidChar
  · rw [dif_pos hvalid] at h
    exact congrArg Char.toNat h
  · rw [dif_neg hvalid] at h
    contradiction

/-- The capital of another character has no equals sign in it. -/
theorem not_mem_upperChar {c : Char} (h : c ≠ '=') : '=' ∉ upperChar c := by
  intro hmem
  unfold upperChar at hmem
  split at hmem
  · rename_i m hm
    obtain ⟨r, hr, hfirst, hlast, rfl⟩ := exists_run_of_capital? hm
    have hsame := eq_of_ofNat_eq (List.mem_singleton.1 hmem).symm
    have hmiss := capitalRuns_miss_equals r hr
    omega
  · split at hmem
    · rename_i ns hns
      obtain ⟨n, hn, heq⟩ := List.mem_map.1 hmem
      rw [eq_of_ofNat_eq heq] at hn
      exact capitalExpansions_miss_equals _ (mem_of_lookup hns) hn
    · exact h (List.mem_singleton.1 hmem).symm

theorem mem_of_mem_upper {cs : List Char} (h : '=' ∈ upper cs) : '=' ∈ cs := by
  obtain ⟨c, hc, hmem⟩ := List.mem_flatMap.1 h
  by_cases heq : c = '='
  · exact heq ▸ hc
  · exact absurd hmem (not_mem_upperChar heq)

/-- What stands before the first equals sign does so in upper case. -/
theorem takeWhile_upper (cs : List Char) :
    (upper cs).takeWhile (· != '=') = upper (cs.takeWhile (· != '=')) := by
  induction cs with
  | nil => rfl
  | cons c cs ih =>
    by_cases heq : c = '='
    · subst heq
      rfl
    · have hnone : ∀ d ∈ upperChar c, (d != '=') = true := fun d hd =>
        bne_iff_ne.2 fun h => not_mem_upperChar heq (h ▸ hd)
      have hfirst : (c :: cs).takeWhile (· != '=') = c :: cs.takeWhile (· != '=') :=
        List.takeWhile_cons_of_pos (p := (· != '=')) (bne_iff_ne.2 heq)
      rw [hfirst, upper, List.flatMap_cons, List.takeWhile_append_of_pos hnone, upper,
        List.flatMap_cons]
      exact congrArg _ ih

end PolySolve.Text
