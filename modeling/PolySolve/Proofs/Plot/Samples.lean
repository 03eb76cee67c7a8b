import PolySolve.Plot.Range
import PolySolve.Proofs.Binary64.Opposite
import PolySolve.Proofs.Binary64.Underflow

/-!
# Samples of a range

The samples of a range ascend from its lower end to its upper one. Each is the lower end and an
offset from it, and both the offset and the sum are rounded; the last sample is not computed. An
offset before the last is at most `398 / 399` of the width, which leaves more room than the three
roundings on the way to it can use up, so no sample passes the upper end. The lower end is not
passed, however large it is beside the offset.

* `Range.Proper`: a range between finite ends, not both of them close to zero;
* `Range.offset`: what is added to the lower end;
* `Range.HasStep`, `Range.Proper.hasStep`: the distance between two samples;
* `Range.HasStep.offset_le`: no offset is greater than the width;
* `Range.Proper.offset_mem`, `Range.Proper.offset_mono`: the offsets ascend within the width;
* `Range.Proper.pairwise_samples`, `Range.Proper.mem_samples`: so do the samples within the range.
-/

namespace PolySolve.Plot.Range

open Binary64

-- The elaborator must not evaluate these powers of two.
attribute [local irreducible] overflowUnits unitsPerOne

/-- A range between finite ends, one of which has a magnitude of one or more. -/
structure Proper (r : Range) : Prop where
  low : r.low.isFinite
  high : r.high.isFinite
  width : r.width.isFinite
  le : value r.low ≤ value r.high
  far : 1 ≤ |value r.low| ∨ 1 ≤ |value r.high|
  low_ne : r.low ≠ -zero

/-- What is added to the lower end for a sample before the last. -/
def offset (r : Range) (i : Nat) : Binary64 :=
  if r.step.isZero then .ofNat i / .ofNat (sampleCount - 1) * r.width else .ofNat i * r.step

theorem sample_of_lt (r : Range) {i : Nat} (hi : i + 1 < sampleCount) :
    r.sample i = r.offset i + r.low := by
  rw [sample, if_neg hi.ne, offset]
  split <;> rfl

/-- The distance between two samples, rounded twice, has full precision. -/
structure HasStep (r : Range) : Prop where
  finite : r.step.isFinite
  normal : leastNormal ≤ value r.step
  share : value r.step ≤ (1 + roundoff) * (value r.width / 399)
  width_pos : 0 < value r.width
  width_le : value r.width ≤ (1 + roundoff) * (value r.high - value r.low)

variable {r : Range} {i j : Nat}

/-! ## Sample numbers -/

theorem toInt?_number (hi : i < sampleCount) : (ofNat i).toInt? = some i :=
  toInt?_ofNat (hi.le.trans (by decide))

theorem isFinite_number (hi : i < sampleCount) : (ofNat i).isFinite :=
  isFinite_of_toInt? (toInt?_number hi)

theorem value_number (hi : i < sampleCount) : value (ofNat i) = i := by
  rw [value_of_toInt? (toInt?_number hi), Int.cast_natCast]

theorem value_last : value (ofNat (sampleCount - 1)) = 399 :=
  value_number (by decide)

theorem isFinite_last : (ofNat (sampleCount - 1)).isFinite := isFinite_number (by decide)

theorem units_last_ne : units (ofNat (sampleCount - 1)) ≠ 0 := fun h0 => by
  have hvalue := value_eq_zero_iff.2 h0
  rw [value_last] at hvalue
  norm_num at hvalue

theorem isZero_last : (ofNat (sampleCount - 1)).isZero = false := isZero_of_units_ne units_last_ne

/-- A quotient by the last number is not greater than the dividend. -/
theorem isFinite_div_last {x : Binary64} (hx : x.isFinite) :
    (x / ofNat (sampleCount - 1)).isFinite := by
  refine isFinite_div_of_le hx isFinite_last hx units_last_ne ?_
  rw [value_last]
  exact le_mul_of_one_le_right (abs_nonneg _) (by norm_num)

theorem leastNormal_le : leastNormal ≤ 1 / 2 ^ 100 := by
  have hplaces : twoPow 52 * twoPow 100 ≤ unitsPerOne := by
    rw [unitsPerOne, ← twoPow_add]
    exact twoPow_le_of_le (by decide)
  rw [leastNormal, div_le_div_iff₀ unitsPerOne_posQ (by positivity), one_mul, ← cast_twoPow 100]
  exact_mod_cast hplaces

theorem leastNormal_pos : 0 < leastNormal := by
  rw [leastNormal]
  exact div_pos (by exact_mod_cast twoPow_pos 52) unitsPerOne_posQ

theorem Proper.approximates_width (h : r.Proper) :
    Approximates (value r.width) (value r.high - value r.low) := approximates_sub h.width

/-! ## Offsets of a range without width -/

theorem Proper.offset_of_eq (h : r.Proper) (heq : value r.low = value r.high)
    (hi : i < sampleCount) : (r.offset i).isFinite ∧ value (r.offset i) = 0 := by
  have hwidth : value r.width = 0 := by
    have happrox := h.approximates_width
    rw [heq, sub_self] at happrox
    exact happrox.eq_zero
  have hstep : r.step.isFinite := isFinite_div_last h.width
  have hzero : r.step.isZero :=
    isZero_iff_value.2 ⟨hstep, value_div_eq_zero hstep isFinite_last isZero_last hwidth⟩
  rw [offset, if_pos hzero]
  have hfinite : (ofNat i / ofNat (sampleCount - 1) * r.width).isFinite :=
    isFinite_mul_of_le (isFinite_div_last (isFinite_number hi)) h.width h.width (by simp [hwidth])
  exact ⟨hfinite, value_mul_eq_zero hfinite (by rw [hwidth, mul_zero])⟩

/-! ## The step of a range with a width -/

/-- Two ends that differ are not close to each other, so the width is not small. -/
theorem Proper.le_width (h : r.Proper) (hlt : value r.low < value r.high) :
    1 / 2 ^ 54 ≤ value r.width := by
  have hgap : 1 ≤ 2 ^ 53 * (value r.high - value r.low) := by
    obtain ⟨hlow, hhigh⟩ := abs_value_le_mul_sub h.low h.high hlt
    exact h.far.elim hlow.trans' hhigh.trans'
  calc (1 : ℚ) / 2 ^ 54 ≤ (1 - roundoff) * (1 / 2 ^ 53) := by norm_num [roundoff]
    _ ≤ (1 - roundoff) * (value r.high - value r.low) :=
        mul_le_mul_of_nonneg_left (by linarith) one_sub_roundoff_pos.le
    _ ≤ value r.width := (h.approximates_width.bounds (sub_nonneg.2 hlt.le)).1

theorem Proper.hasStep (h : r.Proper) (hlt : value r.low < value r.high) : r.HasStep := by
  have hwidth := h.le_width hlt
  have hpos : 0 < value r.width := hwidth.trans_lt' (by norm_num)
  have hsmall := leastNormal_le
  have hstep : r.step.isFinite := isFinite_div_last h.width
  have hnormal : leastNormal ≤ |value r.width / value (ofNat (sampleCount - 1))| := by
    rw [value_last, abs_of_pos (by positivity)]
    linarith
  have happrox : Approximates (value r.step) (value r.width / value (ofNat (sampleCount - 1))) :=
    approximates_div hstep isFinite_last isZero_last (Or.inr hnormal)
  rw [value_last] at happrox
  obtain ⟨hlow, hhigh⟩ := happrox.bounds (by positivity)
  refine ⟨hstep, ?_, hhigh, hpos, (h.approximates_width.bounds (sub_nonneg.2 hlt.le)).2⟩
  have hhalf : 1 / 2 * (value r.width / 399) ≤ (1 - roundoff) * (value r.width / 399) :=
    mul_le_mul_of_nonneg_right (by norm_num [roundoff]) (by positivity)
  linarith

/-! ## Offsets of a range with a width -/

namespace HasStep

theorem pos (h : r.HasStep) : 0 < value r.step := leastNormal_pos.trans_le h.normal

theorem offset_eq (h : r.HasStep) (i : Nat) : r.offset i = ofNat i * r.step := by
  rw [offset, if_neg fun hzero => h.pos.ne' (isZero_iff_value.1 hzero).2]

theorem multiple_nonneg (h : r.HasStep) (i : Nat) : 0 ≤ i * value r.step :=
  mul_nonneg (Nat.cast_nonneg i) h.pos.le

/-- One step is left over, but for what the rounding of the step has added. -/
theorem multiple_le (h : r.HasStep) (hi : i + 1 < sampleCount) :
    i * value r.step ≤ (1 + roundoff) * (398 / 399) * value r.width := by
  have hcount : (i : ℚ) ≤ 398 := by
    have hcount : i ≤ 398 := Nat.le_of_lt_succ (Nat.lt_of_succ_lt_succ hi)
    exact_mod_cast hcount
  have := mul_le_mul hcount h.share h.pos.le (by norm_num)
  linarith

theorem isFinite_offset (h : r.HasStep) (hw : r.width.isFinite) (hi : i + 1 < sampleCount) :
    (r.offset i).isFinite := by
  rw [h.offset_eq]
  refine isFinite_mul_of_le (isFinite_number (Nat.lt_of_succ_lt hi)) h.finite hw ?_
  rw [value_number (Nat.lt_of_succ_lt hi), abs_of_nonneg (h.multiple_nonneg i),
    abs_of_pos h.width_pos]
  exact (h.multiple_le hi).trans (mul_le_of_le_one_left h.width_pos.le (by norm_num [roundoff]))

theorem approximates_offset (h : r.HasStep) (hw : r.width.isFinite) (hi : i + 1 < sampleCount) :
    Approximates (value (r.offset i)) (i * value r.step) := by
  have hfinite := h.isFinite_offset hw hi
  have hnumber := value_number (Nat.lt_of_succ_lt hi)
  rw [h.offset_eq] at hfinite ⊢
  rw [← hnumber]
  apply approximates_mul hfinite
  rw [hnumber, abs_of_nonneg (h.multiple_nonneg i)]
  rcases Nat.eq_zero_or_pos i with rfl | hi0
  · exact Or.inl (by rw [Nat.cast_zero, zero_mul])
  · have hone : (1 : ℚ) ≤ i := by exact_mod_cast hi0
    exact Or.inr (h.normal.trans (le_mul_of_one_le_left h.pos.le hone))

/-- Three roundings up make less than the one step that is left over. -/
theorem offset_le (h : r.HasStep) (hw : r.width.isFinite) (hle : value r.low ≤ value r.high)
    (hi : i + 1 < sampleCount) : value (r.offset i) ≤ value r.high - value r.low := by
  have hround : 0 ≤ 1 + roundoff := by norm_num [roundoff]
  calc value (r.offset i) ≤ (1 + roundoff) * (i * value r.step) :=
        ((h.approximates_offset hw hi).bounds (h.multiple_nonneg i)).2
    _ ≤ (1 + roundoff) * ((1 + roundoff) * (398 / 399) * value r.width) :=
        mul_le_mul_of_nonneg_left (h.multiple_le hi) hround
    _ = (1 + roundoff) * ((1 + roundoff) * (398 / 399)) * value r.width := by ring
    _ ≤ (1 + roundoff) * ((1 + roundoff) * (398 / 399)) *
          ((1 + roundoff) * (value r.high - value r.low)) :=
        mul_le_mul_of_nonneg_left h.width_le (by positivity)
    _ = (1 + roundoff) ^ 3 * (398 / 399) * (value r.high - value r.low) := by ring
    _ ≤ value r.high - value r.low :=
        mul_le_of_le_one_left (sub_nonneg.2 hle) (by norm_num [roundoff])

end HasStep

namespace Proper

/-! ## Offsets -/

theorem offset_mem (h : r.Proper) (hi : i + 1 < sampleCount) :
    (r.offset i).isFinite ∧ 0 ≤ value (r.offset i) ∧
      value (r.offset i) ≤ value r.high - value r.low := by
  rcases h.le.eq_or_lt with heq | hlt
  · obtain ⟨hfinite, hzero⟩ := h.offset_of_eq heq (Nat.lt_of_succ_lt hi)
    rw [hzero]
    exact ⟨hfinite, le_refl 0, sub_nonneg.2 h.le⟩
  · have hstep := h.hasStep hlt
    have hbelow := ((hstep.approximates_offset h.width hi).bounds (hstep.multiple_nonneg i)).1
    exact ⟨hstep.isFinite_offset h.width hi,
      (mul_nonneg one_sub_roundoff_pos.le (hstep.multiple_nonneg i)).trans hbelow,
      hstep.offset_le h.width h.le hi⟩

theorem offset_mono (h : r.Proper) (hij : i ≤ j) (hj : j + 1 < sampleCount) :
    value (r.offset i) ≤ value (r.offset j) := by
  have hi : i + 1 < sampleCount := Nat.lt_of_le_of_lt (Nat.succ_le_succ hij) hj
  rcases h.le.eq_or_lt with heq | hlt
  · rw [(h.offset_of_eq heq (Nat.lt_of_succ_lt hi)).2, (h.offset_of_eq heq (Nat.lt_of_succ_lt hj)).2]
  · have hstep := h.hasStep hlt
    have hifinite := hstep.isFinite_offset h.width hi
    have hjfinite := hstep.isFinite_offset h.width hj
    rw [hstep.offset_eq] at hifinite ⊢
    rw [hstep.offset_eq] at hjfinite ⊢
    apply value_mul_mono hifinite hjfinite
    rw [value_number (Nat.lt_of_succ_lt hi), value_number (Nat.lt_of_succ_lt hj)]
    exact mul_le_mul_of_nonneg_right (by exact_mod_cast hij) hstep.pos.le

theorem offset_zero (h : r.Proper) : (r.offset 0).isZero := by
  have hfirst : 0 + 1 < sampleCount := by decide
  rcases h.le.eq_or_lt with heq | hlt
  · exact isZero_iff_value.2 (h.offset_of_eq heq (Nat.lt_of_succ_lt hfirst))
  · have happrox := (h.hasStep hlt).approximates_offset h.width hfirst
    rw [Nat.cast_zero, zero_mul] at happrox
    exact isZero_iff_value.2 ⟨(h.offset_mem hfirst).1, happrox.eq_zero⟩

/-! ## Samples -/

theorem sample_zero (h : r.Proper) : r.sample 0 = r.low := by
  rw [sample_of_lt r (by decide)]
  have hsame : SameValue (r.offset 0 + r.low) r.low := sameValue_add_of_isZero h.offset_zero _
  have hne : r.offset 0 + r.low ≠ -zero := by
    rw [add_swap]
    exact add_ne h.low_ne _
  rwa [SameValue, unsignedZero_of_ne hne, unsignedZero_of_ne h.low_ne] at hsame

theorem sample_mem (h : r.Proper) (hi : i < sampleCount) :
    (r.sample i).isFinite ∧ value r.low ≤ value (r.sample i) ∧
      value (r.sample i) ≤ value r.high := by
  rcases Nat.lt_or_eq_of_le (Nat.succ_le_of_lt hi) with hlt | heq
  case inr =>
    rw [sample, if_pos heq]
    exact ⟨h.high, h.le, le_refl _⟩
  obtain ⟨hoffset, hlow, hhigh⟩ := h.offset_mem hlt
  rw [sample_of_lt r hlt]
  have hbelow : value r.low ≤ value (r.offset i) + value r.low := by linarith
  have habove : value (r.offset i) + value r.low ≤ value r.high := by linarith
  have hfinite : (r.offset i + r.low).isFinite := by
    rcases le_max_iff.1 (abs_le_max_abs_abs hbelow habove) with hle | hle
    · exact isFinite_add_of_le hoffset h.low h.low hle
    · exact isFinite_add_of_le hoffset h.low h.high hle
  exact ⟨hfinite, le_value_add hfinite h.low hbelow, value_add_le hfinite h.high habove⟩

theorem sample_mono (h : r.Proper) (hij : i ≤ j) (hj : j < sampleCount) :
    r.sample i ≤ r.sample j := by
  obtain ⟨hifinite, -, hihigh⟩ := h.sample_mem (hij.trans_lt hj)
  obtain ⟨hjfinite, -, -⟩ := h.sample_mem hj
  rw [le_iff_value hifinite hjfinite]
  rcases Nat.lt_or_eq_of_le (Nat.succ_le_of_lt hj) with hlt | heq
  case inr =>
    have hlast : r.sample j = r.high := if_pos heq
    rwa [hlast]
  have hilt : i + 1 < sampleCount := Nat.lt_of_le_of_lt (Nat.succ_le_succ hij) hlt
  rw [sample_of_lt r hilt] at hifinite ⊢
  rw [sample_of_lt r hlt] at hjfinite ⊢
  have := h.offset_mono hij hlt
  exact value_add_mono hifinite hjfinite (by linarith)

/-- The samples ascend. -/
theorem pairwise_samples (h : r.Proper) : r.samples.Pairwise (· ≤ ·) := by
  refine List.pairwise_map.2 (List.pairwise_lt_range.imp_of_mem fun _ hj hij => ?_)
  exact h.sample_mono hij.le (List.mem_range.1 hj)

/-- The samples are within the range. -/
theorem mem_samples (h : r.Proper) {x : Binary64} (hx : x ∈ r.samples) :
    x.isFinite ∧ r.low ≤ x ∧ x ≤ r.high := by
  obtain ⟨i, hi, rfl⟩ := List.mem_map.1 hx
  obtain ⟨hfinite, hlow, hhigh⟩ := h.sample_mem (List.mem_range.1 hi)
  exact ⟨hfinite, (le_iff_value h.low hfinite).2 hlow, (le_iff_value hfinite h.high).2 hhigh⟩

theorem head?_samples (h : r.Proper) : r.samples.head? = some r.low := by
  rw [samples, List.head?_map, List.head?_range, if_neg (by decide), Option.map_some, h.sample_zero]

end Proper

theorem getLast?_samples (r : Range) : r.samples.getLast? = some r.high := by
  rw [samples, List.getLast?_map, List.getLast?_range, if_neg (by decide), Option.map_some,
    sample_last]

end PolySolve.Plot.Range
