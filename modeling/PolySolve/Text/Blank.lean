import PolySolve.Text.Run

/-!
# Blanks

The blank characters of Unicode (spaces, line and paragraph separators, and the control characters
that separate lines, columns and records) and trimming.

* `trim_eq_nil_iff`: trimming leaves nothing exactly if all characters are blank.
-/

namespace PolySolve.Text

/-- First and last code point of each run of blanks. -/
def blankRuns : List (Nat × Nat) := [
  (0x20, 0x20), (0x09, 0x0D), (0x1C, 0x1F), (0x85, 0x85), (0xA0, 0xA0), (0x1680, 0x1680),
  (0x2000, 0x200A), (0x2028, 0x2029), (0x202F, 0x202F), (0x205F, 0x205F), (0x3000, 0x3000)]

def isBlank (c : Char) : Bool := inRuns blankRuns c.toNat

def trimStart (cs : List Char) : List Char := cs.dropWhile isBlank

def trimEnd (cs : List Char) : List Char := (cs.reverse.dropWhile isBlank).reverse

def trim (cs : List Char) : List Char := trimEnd (trimStart cs)

theorem dropWhile_eq_nil_iff {p : Char → Bool} {cs : List Char} :
    cs.dropWhile p = [] ↔ ∀ c ∈ cs, p c := by
  induction cs with
  | nil => simp
  | cons c cs ih => by_cases h : p c <;> simp [List.dropWhile, h, ih]

theorem trim_eq_nil_iff {cs : List Char} : trim cs = [] ↔ ∀ c ∈ cs, isBlank c := by
  rw [trim, trimEnd, List.reverse_eq_nil_iff, dropWhile_eq_nil_iff]
  refine ⟨fun h => ?_, fun h c hc => ?_⟩
  · induction cs with
    | nil => simp
    | cons c cs ih =>
      by_cases hc : isBlank c
      · simp only [trimStart, List.dropWhile, hc] at h
        simpa [hc] using ih h
      · exact absurd (h c (by simp [trimStart, hc])) hc
  · exact h c ((List.dropWhile_sublist _).subset (List.mem_reverse.1 hc))

end PolySolve.Text
