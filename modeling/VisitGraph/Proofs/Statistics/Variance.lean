import Mathlib.Algebra.BigOperators.Ring.List
import Mathlib.Algebra.Order.BigOperators.Group.List
import Mathlib.Analysis.Real.Sqrt
import Mathlib.Tactic.FieldSimp
import Mathlib.Tactic.Linarith
import Mathlib.Tactic.Ring
import VisitGraph.Proofs.Band.Rule
import VisitGraph.Spread

/-! # Spread and sample variance

The square of the spread is not the sample variance, as the values are not centred before they are
squared. Without rounding it is larger by the square of the mean over one less than the number of
values, so that the bands begin farther from the mean than with the sample deviation. -/

namespace VisitGraph

/-! ## The sample variance -/

namespace Spread

variable {xs : List ℚ}

theorem total_eq_sum (xs : List ℚ) : total xs = xs.sum := by
  rw [total, List.sum_eq_foldl, Nat.cast_zero]

/-- The sample variance: the squares of the distances from the mean, over one less than the number
of values. -/
def sampleVariance (xs : List ℚ) : ℚ :=
  (xs.map fun x => (x - mean xs) ^ 2).sum / (xs.length - 1)

theorem length_mul_mean (h : xs ≠ []) : xs.length * mean xs = xs.sum := by
  have hlength : (xs.length : ℚ) ≠ 0 := Nat.cast_ne_zero.mpr (mt List.length_eq_zero_iff.mp h)
  rw [mean, total_eq_sum, mul_div_cancel₀ _ hlength]

theorem sum_sq_sub (xs : List ℚ) (a : ℚ) :
    (xs.map fun x => (x - a) ^ 2).sum =
      (xs.map fun x => x * x).sum - 2 * a * xs.sum + xs.length * a ^ 2 := by
  induction xs with
  | nil => simp
  | cons x xs ih =>
      simp only [List.map_cons, List.sum_cons, List.length_cons, Nat.cast_succ, ih]
      ring

theorem length_sub_one_pos (h : 2 ≤ xs.length) : (0 : ℚ) < xs.length - 1 := by
  have htwo : (2 : ℚ) ≤ xs.length := by exact_mod_cast h
  linarith

/-- Without centring, the square of the mean is left over. -/
theorem radicand_eq_sampleVariance_add (h : 2 ≤ xs.length) :
    radicand xs = sampleVariance xs + mean xs ^ 2 / (xs.length - 1) := by
  have hpos := length_sub_one_pos h
  have hlength : ((xs.length - 1 : ℕ) : ℚ) = xs.length - 1 := by
    rw [Nat.cast_sub (by omega), Nat.cast_one]
  have hsum : xs.length * mean xs = xs.sum :=
    length_mul_mean (List.ne_nil_of_length_pos (by omega))
  rw [radicand, total_eq_sum, sampleVariance, sum_sq_sub, ← hsum, hlength]
  field_simp
  ring

theorem sampleVariance_nonneg (h : 2 ≤ xs.length) : 0 ≤ sampleVariance xs := by
  refine div_nonneg (List.sum_nonneg ?_) (length_sub_one_pos h).le
  simp only [List.forall_mem_map]
  exact fun x _ => sq_nonneg _

/-- The values do not vary if they all are the mean. -/
theorem sampleVariance_eq_zero_iff (h : 2 ≤ xs.length) :
    sampleVariance xs = 0 ↔ ∀ x ∈ xs, x = mean xs := by
  have hsquares : ∀ sq ∈ xs.map fun x => (x - mean xs) ^ 2, 0 ≤ sq := by
    simp only [List.forall_mem_map]
    exact fun x _ => sq_nonneg _
  rw [sampleVariance, div_eq_zero_iff, or_iff_left (length_sub_one_pos h).ne']
  constructor
  · intro hsum x hx
    have hsq : (x - mean xs) ^ 2 = 0 :=
      List.all_zero_of_le_zero_le_of_sum_eq_zero hsquares hsum (List.mem_map_of_mem hx)
    rwa [sq_eq_zero_iff, sub_eq_zero] at hsq
  · intro hmean
    refine List.sum_eq_zero ?_
    simp only [List.forall_mem_map]
    intro x hx
    rw [hmean x hx, sub_self, zero_pow two_ne_zero]

theorem mean_eq_of_forall_eq {a : ℚ} (hne : xs ≠ []) (h : ∀ x ∈ xs, x = a) : mean xs = a := by
  have hlength : (xs.length : ℚ) ≠ 0 := Nat.cast_ne_zero.mpr (mt List.length_eq_zero_iff.mp hne)
  refine mul_left_cancel₀ hlength ?_
  rw [length_mul_mean hne, List.sum_eq_card_nsmul xs a h, nsmul_eq_mul]

/-! ## The value under the root -/

theorem mean_sq_div_nonneg (h : 2 ≤ xs.length) : 0 ≤ mean xs ^ 2 / (xs.length - 1) :=
  div_nonneg (sq_nonneg _) (length_sub_one_pos h).le

theorem radicand_eq_mean_sq_div_iff (h : 2 ≤ xs.length) :
    radicand xs = mean xs ^ 2 / (xs.length - 1) ↔ ∀ x ∈ xs, ∀ y ∈ xs, x = y := by
  have hne : xs ≠ [] := List.ne_nil_of_length_pos (by omega)
  rw [radicand_eq_sampleVariance_add h, add_eq_right, sampleVariance_eq_zero_iff h]
  constructor
  · intro hmean x hx y hy
    rw [hmean x hx, hmean y hy]
  · intro hall x hx
    rw [mean_eq_of_forall_eq hne fun y hy => hall y hy x hx]

theorem radicand_eq_zero_iff (h : 2 ≤ xs.length) : radicand xs = 0 ↔ ∀ x ∈ xs, x = 0 := by
  have hne : xs ≠ [] := List.ne_nil_of_length_pos (by omega)
  rw [radicand_eq_sampleVariance_add h,
    add_eq_zero_iff_of_nonneg (sampleVariance_nonneg h) (mean_sq_div_nonneg h),
    sampleVariance_eq_zero_iff h, div_eq_zero_iff, or_iff_left (length_sub_one_pos h).ne',
    sq_eq_zero_iff]
  constructor
  · rintro ⟨hmean, hzero⟩ x hx
    rw [hmean x hx, hzero]
  · intro hzero
    have hmean := mean_eq_of_forall_eq hne hzero
    exact ⟨fun x hx => by rw [hzero x hx, hmean], hmean⟩

/-! ## The two deviations -/

theorem mean_pos (hne : xs ≠ []) (h : ∀ x ∈ xs, 0 < x) : 0 < mean xs := by
  rw [mean, total_eq_sum]
  exact div_pos (List.sum_pos xs h hne) (Nat.cast_pos.mpr (List.length_pos_iff.mpr hne))

theorem sampleVariance_lt_radicand (h : 2 ≤ xs.length) (hpos : ∀ x ∈ xs, 0 < x) :
    sampleVariance xs < radicand xs := by
  have hmean := mean_pos (List.ne_nil_of_length_pos (by omega)) hpos
  rw [radicand_eq_sampleVariance_add h]
  exact lt_add_of_pos_right _ (div_pos (pow_pos hmean 2) (length_sub_one_pos h))

/-- The spread without rounding. -/
noncomputable def exactSpread (xs : List ℚ) : ℝ :=
  √(radicand xs : ℚ)

/-- The sample deviation. -/
noncomputable def sampleDeviation (xs : List ℚ) : ℝ :=
  √(sampleVariance xs : ℚ)

theorem sampleDeviation_lt_exactSpread (h : 2 ≤ xs.length) (hpos : ∀ x ∈ xs, 0 < x) :
    sampleDeviation xs < exactSpread xs :=
  Real.sqrt_lt_sqrt (Rat.cast_nonneg.mpr (sampleVariance_nonneg h))
    (Rat.cast_lt.mpr (sampleVariance_lt_radicand h hpos))

/-- The value under the root is the sample variance and as much as the square of the mean over one
less than the number of values. For positive values, the spread exceeds the sample deviation, and
what falls into a band is farther from the mean than the sample deviation. -/
theorem radicand_exceeds_sampleVariance (xs : List ℚ) (h : 2 ≤ xs.length) :
    radicand xs = sampleVariance xs + mean xs ^ 2 / (xs.length - 1) ∧
    0 ≤ mean xs ^ 2 / (xs.length - 1) ∧
    mean xs ^ 2 / (xs.length - 1) ≤ radicand xs ∧
    (radicand xs = mean xs ^ 2 / (xs.length - 1) ↔ ∀ x ∈ xs, ∀ y ∈ xs, x = y) ∧
    (radicand xs = 0 ↔ ∀ x ∈ xs, x = 0) ∧
    ((∀ x ∈ xs, 0 < x) →
      0 < exactSpread xs ∧ sampleDeviation xs < exactSpread xs ∧
      ∀ (calls : ℝ) (b : Band), Band.ofCalls calls (mean xs : ℚ) (exactSpread xs) = some b →
        (b.isAbove = true → (mean xs : ℚ) + sampleDeviation xs < calls) ∧
        (b.isAbove = false → calls < (mean xs : ℚ) - sampleDeviation xs)) := by
  have heq := radicand_eq_sampleVariance_add h
  refine ⟨heq, mean_sq_div_nonneg h, ?_, radicand_eq_mean_sq_div_iff h, radicand_eq_zero_iff h,
    fun hpos => ?_⟩
  · rw [heq]
    exact le_add_of_nonneg_left (sampleVariance_nonneg h)
  · have hlt := sampleDeviation_lt_exactSpread h hpos
    have hnonneg : 0 ≤ sampleDeviation xs := Real.sqrt_nonneg _
    refine ⟨hnonneg.trans_lt hlt, hlt, fun calls b hb => ?_⟩
    obtain ⟨habove, hbelow⟩ := Band.spread_lt_of_ofCalls hb (hnonneg.trans hlt.le)
    refine ⟨fun hside => ?_, fun hside => ?_⟩
    · have hcalls := habove hside
      linarith
    · have hcalls := hbelow hside
      linarith

/-- Three nodes are visited ten times and one fifty times, which is more than one spread above the
mean. -/
theorem radicand_exceeds_sampleVariance_ten_fifty :
    let xs : List ℚ := [10, 10, 10, 50]
    2 ≤ xs.length ∧ (∀ x ∈ xs, 0 < x) ∧ radicand xs = sampleVariance xs + 400 / 3 ∧
      sampleDeviation xs < exactSpread xs ∧ Band.ofCalls 50 20 (exactSpread xs) = some .high ∧
      20 + sampleDeviation xs < 50 := by
  intro xs
  have htwo : 2 ≤ xs.length := by decide
  have hpos : ∀ x ∈ xs, 0 < x := by decide +kernel
  have hmean : mean xs = 20 := by decide +kernel
  have hradicand : radicand xs = 1600 / 3 := by decide +kernel
  have hband : Band.ofCalls 50 20 (exactSpread xs) = some .high := by
    have hlt : exactSpread xs < 30 := by
      rw [exactSpread, hradicand, Real.sqrt_lt' (by norm_num)]
      norm_num
    have hgt : 15 < exactSpread xs := by
      rw [exactSpread, hradicand, Real.lt_sqrt (by norm_num)]
      norm_num
    rw [Band.ofCalls, Band.all, List.find?_cons_of_neg, List.find?_cons_of_pos]
    all_goals
      simp only [Band.beyond, Band.limit, Band.isAbove, if_true, Band.reach, decide_eq_true_eq]
      push_cast
      linarith
  obtain ⟨heq, -, -, -, -, hdeviations⟩ := radicand_exceeds_sampleVariance xs htwo
  obtain ⟨-, hlt, hbands⟩ := hdeviations hpos
  simp only [hmean, Rat.cast_ofNat] at heq hbands
  have hexcess : (20 : ℚ) ^ 2 / (xs.length - 1) = 400 / 3 := by decide +kernel
  rw [hexcess] at heq
  exact ⟨htwo, hpos, heq, hlt, hband, (hbands 50 .high hband).1 rfl⟩

end Spread

end VisitGraph
