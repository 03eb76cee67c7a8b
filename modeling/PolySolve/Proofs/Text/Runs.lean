import Mathlib.Data.List.DropRight
import PolySolve.Text.Blank
import PolySolve.Text.DecimalDigit

/-!
# Runs of characters of a class

A scanner takes the characters of a class from the front of a text. It takes a
whole run of them if what follows starts with no other one. Trimming takes the
run of blanks at each end of a text, and nothing else.

* `dropWhile_append_of_stops`: how far a scanner runs;
* `infix_of_append`: where a text is found;
* `isDigit_of_isBlank`: no blank is a digit;
* `count_trim`, `mem_trim`: what trimming leaves;
* `trimStart_append_of_mem`, `trimEnd_append_of_mem`, `trim_append_cons`: texts
  that are trimmed at one end only, or on both sides of a character.
-/

namespace PolySolve

/-- No character of the class stands at the front. -/
abbrev Stops (p : Char → Bool) (cs : List Char) : Prop := ∀ c ∈ cs.head?, p c = false

theorem stops_cons {p : Char → Bool} {c : Char} (h : p c = false) (cs : List Char) :
    Stops p (c :: cs) := fun d hd => by
  obtain rfl : c = d := Option.some.inj hd
  exact h

theorem dropWhile_of_stops {p : Char → Bool} {cs : List Char} (h : Stops p cs) :
    cs.dropWhile p = cs ∧ cs.takeWhile p = [] := by
  cases cs with
  | nil => exact ⟨rfl, rfl⟩
  | cons c cs =>
    have hc : p c = false := h c rfl
    simp [hc]

/-- A scanner for a class takes a run of the class and nothing else. -/
theorem dropWhile_append_of_stops {p : Char → Bool} {run rest : List Char}
    (hrun : ∀ c ∈ run, p c) (hrest : Stops p rest) :
    (run ++ rest).dropWhile p = rest ∧ (run ++ rest).takeWhile p = run := by
  obtain ⟨hd, ht⟩ := dropWhile_of_stops hrest
  rw [List.dropWhile_append_of_pos hrun, List.takeWhile_append_of_pos hrun, hd, ht]
  exact ⟨rfl, List.append_nil run⟩

theorem stops_append {p : Char → Bool} {run rest : List Char} (hrun : ∀ c ∈ run, p c = false)
    (hrest : Stops p rest) : Stops p (run ++ rest) := by
  cases run with
  | nil => exact hrest
  | cons c run => exact stops_cons (hrun c List.mem_cons_self) _

/-- What starts with a character is found behind a run without this character. -/
theorem infix_of_append {c : Char} {ds rest : List Char} (run : List Char) (h : c ∉ run)
    (hin : c :: ds <:+: run ++ rest) : c :: ds <:+: rest := by
  induction run with
  | nil => exact hin
  | cons d run ih =>
    have hd : c ≠ d := fun hd => h (hd ▸ List.mem_cons_self)
    have hrun : c ∉ run := fun hmem => h (List.mem_cons_of_mem _ hmem)
    refine ih hrun ((List.infix_cons_iff.1 hin).resolve_left fun hfront => ?_)
    exact hd (List.cons_prefix_cons.1 hfront).1

namespace Text

/-! ## Digits and blanks -/

/-- No digit lies in a run of blanks. -/
theorem isDigit_of_isBlank {c : Char} (h : isBlank c) : isDigit c = false := by
  have apart : ∀ b ∈ blankRuns, ∀ z ∈ digitZeros, b.2 < z ∨ z + 10 ≤ b.1 := by decide
  obtain ⟨b, hb, hc⟩ := List.any_eq_true.1 h
  simp only [Bool.and_eq_true, decide_eq_true_eq] at hc
  rw [isDigit, digitValue?, Option.isSome_eq_false_iff, Option.isNone_iff_eq_none,
    List.findSome?_eq_none_iff]
  intro z hz
  have := apart b hb z hz
  exact if_neg (by omega)

theorem isBlank_of_isDigit {c : Char} (h : isDigit c) : isBlank c = false := by
  rw [Bool.eq_false_iff]
  intro hb
  rw [isDigit_of_isBlank hb] at h
  contradiction

/-! ## Trimming -/

theorem count_dropWhile {p : Char → Bool} {c : Char} (hc : p c = false) (cs : List Char) :
    (cs.dropWhile p).count c = cs.count c := by
  have hnone : (cs.takeWhile p).count c = 0 := by
    rw [List.count_eq_zero]
    intro hm
    have := List.all_eq_true.1 List.all_takeWhile _ hm
    rw [hc] at this
    contradiction
  conv => rhs; rw [← List.takeWhile_append_dropWhile (p := p) (l := cs)]
  rw [List.count_append, hnone, Nat.zero_add]

/-- Trimming keeps all characters that are not blank. -/
theorem count_trim {c : Char} (hc : isBlank c = false) (cs : List Char) :
    (trim cs).count c = cs.count c := by
  rw [trim, trimEnd, List.count_reverse, count_dropWhile hc, List.count_reverse, trimStart,
    count_dropWhile hc]

/-- Trimming takes away nothing but blanks. -/
theorem mem_trim {cs : List Char} {c : Char} (h : c ∈ cs) (hc : isBlank c = false) :
    c ∈ trim cs := by
  rw [← List.count_pos_iff, count_trim hc]
  exact List.count_pos_iff.2 h

theorem trimStart_append_of_mem {c : Char} {cs : List Char} (hc : c ∈ cs) (h : isBlank c = false)
    (ds : List Char) : trimStart (cs ++ ds) = trimStart cs ++ ds := by
  unfold trimStart
  rw [List.dropWhile_append, if_neg]
  intro hempty
  have hall := dropWhile_eq_nil_iff.1 (List.isEmpty_iff.1 hempty) c hc
  rw [h] at hall
  contradiction

theorem trimEnd_append_of_mem {c : Char} {ds : List Char} (hc : c ∈ ds) (h : isBlank c = false)
    (cs : List Char) : trimEnd (cs ++ ds) = cs ++ trimEnd ds := by
  have hstart := trimStart_append_of_mem (List.mem_reverse.2 hc) h cs.reverse
  unfold trimStart at hstart
  unfold trimEnd
  rw [List.reverse_append, hstart, List.reverse_append, List.reverse_reverse]

theorem trimStart_append_of_stops {ds : List Char} (h : Stops isBlank ds) (cs : List Char) :
    trimStart (cs ++ ds) = trimStart cs ++ ds := by
  unfold trimStart
  rw [List.dropWhile_append, (dropWhile_of_stops h).1]
  split
  · rename_i hempty
    rw [List.isEmpty_iff.1 hempty, List.nil_append]
  · rfl

/-- Around a character that is not blank a text is trimmed on both sides. -/
theorem trim_append_cons {c : Char} (h : isBlank c = false) (cs ds : List Char) :
    trim (cs ++ c :: ds) = trimStart cs ++ c :: trimEnd ds := by
  have hend : trimEnd (c :: ds) = c :: trimEnd ds := by
    have hreverse := trimStart_append_of_stops (stops_cons h []) ds.reverse
    unfold trimStart at hreverse
    rw [trimEnd, List.reverse_cons, hreverse, List.reverse_append]
    rfl
  rw [trim, trimStart_append_of_stops (stops_cons h ds), trimEnd_append_of_mem List.mem_cons_self h,
    hend]

theorem trimStart_trimStart (cs : List Char) : trimStart (trimStart cs) = trimStart cs :=
  List.dropWhile_idempotent isBlank cs

theorem trimEnd_trimEnd (cs : List Char) : trimEnd (trimEnd cs) = trimEnd cs :=
  List.rdropWhile_idempotent isBlank cs

end Text

end PolySolve
