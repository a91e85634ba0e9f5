import Mathlib.Data.Rat.BigOperators
import VisitGraph.Proofs.Band.Reach
import VisitGraph.Proofs.Numeric.Root
import VisitGraph.Proofs.Statistics.Variance

/-! # How many values can stand out

The squares of the distances from the mean add up to at most the square of the spread for each value
but one. By the argument of Chebyshev, fewer than a quarter as many values lie in a far band, and at
least two lie in no band. This holds for the formulas without rounding, and for the bands that are
found in floating point as long as the sums are exact. -/

namespace VisitGraph

namespace Band

/-- The two bands that begin two spreads from the mean. -/
def isFar : Band → Bool
  | farHigh | farLow => true
  | high | low => false

/-- Few values are in a band, and fewer in a far one. -/
structure FewStandOut (bands : List (Option Band)) : Prop where
  far_lt : 4 * bands.countP (·.any isFar) < bands.length - 1
  banded_lt : bands.countP Option.isSome < bands.length - 1
  not_far : bands.length ≤ 5 → ∀ b, some b ∈ bands → b.isFar = false
  two_le_none : 2 ≤ bands.count none

theorem fewStandOut_of_lt {bands : List (Option Band)}
    (hfar : 4 * bands.countP (·.any isFar) < bands.length - 1)
    (hbanded : bands.countP Option.isSome < bands.length - 1) : FewStandOut bands where
  far_lt := hfar
  banded_lt := hbanded
  not_far hfive b hb := by
    have hzero : bands.countP (·.any isFar) = 0 := by omega
    exact Bool.eq_false_of_not_eq_true (List.countP_eq_zero.mp hzero (some b) hb)
  two_le_none := by
    have hlength := List.length_eq_countP_add_countP Option.isSome (l := bands)
    have hnone : bands.count none = bands.countP fun band => ¬ band.isSome := by
      refine List.countP_congr fun band _ => ?_
      cases band <;> simp
    omega

/-! ## Counting by squares -/

section

variable {R α : Type} [CommRing R] [LinearOrder R] [IsStrictOrderedRing R] {ks : List α} {f : α → R}
  {p : α → Bool} {bandOf : α → Option Band} {m d c : R}

/-- Each of the counted values takes its share of the squares. -/
theorem countP_mul_le_sum (hp : ∀ k ∈ ks, p k = true → c < (f k - m) ^ 2) :
    ks.countP p * c ≤ (ks.map fun k => (f k - m) ^ 2).sum ∧
      (0 < ks.countP p → ks.countP p * c < (ks.map fun k => (f k - m) ^ 2).sum) := by
  induction ks with
  | nil => simp
  | cons k ks ih =>
      obtain ⟨hk, hks⟩ := List.forall_mem_cons.mp hp
      obtain ⟨hle, hlt⟩ := ih hks
      rw [List.map_cons, List.sum_cons]
      by_cases hpk : p k = true
      · rw [List.countP_cons_of_pos hpk, Nat.cast_succ, add_one_mul]
        have hsq := hk hpk
        exact ⟨by linarith, fun _ => by linarith⟩
      · rw [List.countP_cons_of_neg hpk]
        have hsq := sq_nonneg (f k - m)
        exact ⟨by linarith, fun hpos => by linarith [hlt hpos]⟩

theorem mul_countP_lt {t : ℕ} (htwo : 2 ≤ ks.length)
    (hp : ∀ k ∈ ks, p k = true → t * d ^ 2 < (f k - m) ^ 2)
    (hsum : (ks.map fun k => (f k - m) ^ 2).sum ≤ (ks.length - 1) * d ^ 2) :
    t * ks.countP p < ks.length - 1 := by
  rcases Nat.eq_zero_or_pos (ks.countP p) with hzero | hpos
  · rw [hzero]
    omega
  · have hlt := ((countP_mul_le_sum hp).2 hpos).trans_le hsum
    have hcount : ((t * ks.countP p : ℕ) : R) * d ^ 2 < ((ks.length - 1 : ℕ) : R) * d ^ 2 := by
      rw [Nat.cast_mul, Nat.cast_sub (by omega), Nat.cast_one]
      linarith
    exact Nat.cast_lt.mp (lt_of_mul_lt_mul_right hcount (sq_nonneg d))

/-- Values that are farther from the mean than their band reaches are few. -/
theorem fewStandOut_map (htwo : 2 ≤ ks.length) (hd : 0 ≤ d)
    (hreach : ∀ k ∈ ks, ∀ b, bandOf k = some b → b.reach * d < |f k - m|)
    (hsum : (ks.map fun k => (f k - m) ^ 2).sum ≤ (ks.length - 1) * d ^ 2) :
    FewStandOut (ks.map bandOf) := by
  have hsq : ∀ k ∈ ks, ∀ b, bandOf k = some b → (b.reach * d) ^ 2 < (f k - m) ^ 2 := by
    intro k hk b hb
    have hreach₀ : (0 : R) ≤ b.reach * d := by
      refine mul_nonneg (Int.cast_nonneg ?_) hd
      cases b <;> decide
    exact sq_lt_sq.mpr ((abs_of_nonneg hreach₀).trans_lt (hreach k hk b hb))
  refine fewStandOut_of_lt ?_ ?_
  · rw [List.countP_map, List.length_map]
    refine mul_countP_lt htwo (fun k hk hfar => ?_) hsum
    rw [Function.comp_apply, Option.any_eq_true] at hfar
    obtain ⟨b, hb, hfar⟩ := hfar
    have hreach₂ : b.reach = 2 := by
      cases b with
      | farHigh | farLow => rfl
      | high | low => cases hfar
    have hlt := hsq k hk b hb
    rw [hreach₂, mul_pow] at hlt
    norm_num at hlt ⊢
    exact hlt
  · rw [List.countP_map, List.length_map, ← Nat.one_mul (List.countP _ _)]
    refine mul_countP_lt htwo (fun k hk hsome => ?_) hsum
    rw [Function.comp_apply, Option.isSome_iff_exists] at hsome
    obtain ⟨b, hb⟩ := hsome
    have hone : (1 : R) ≤ (b.reach : R) ^ 2 := by
      cases b <;> norm_num [reach]
    have hlt := hsq k hk b hb
    rw [mul_pow] at hlt
    rw [Nat.cast_one, one_mul]
    exact (le_mul_of_one_le_left (sq_nonneg d) hone).trans_lt hlt

end

end Band

namespace Spread

open Numeric Binary64 Band

/-! ## Without rounding -/

section

variable {xs : List ℚ}

/-- The bands of some values without rounding. -/
noncomputable def exactBands (xs : List ℚ) : List (Option Band) :=
  xs.map fun x : ℚ => ofCalls (x : ℝ) (mean xs : ℚ) (exactSpread xs)

/-- The squares of the distances from the mean are those of the sample variance, which is not larger
than the square of the spread. -/
theorem sum_sq_sub_mean_le (h : 2 ≤ xs.length) :
    (xs.map fun x : ℚ => ((x : ℝ) - (mean xs : ℚ)) ^ 2).sum ≤
      (xs.length - 1) * exactSpread xs ^ 2 := by
  have hradicand := radicand_eq_sampleVariance_add h
  have hvariance := sampleVariance_nonneg h
  have hmean := mean_sq_div_nonneg h
  have hpos := length_sub_one_pos h
  have hsum : (xs.map fun x => (x - mean xs) ^ 2).sum ≤ (xs.length - 1) * radicand xs := by
    rw [← div_le_iff₀' hpos, ← sampleVariance]
    linarith
  have hcast := Rat.cast_le (K := ℝ) |>.mpr hsum
  rw [Rat.cast_list_sum, List.map_map] at hcast
  simp only [Function.comp_def] at hcast
  push_cast at hcast
  rw [exactSpread, Real.sq_sqrt (Rat.cast_nonneg.mpr (by linarith))]
  exact hcast

theorem fewStandOut_exactBands (h : 2 ≤ xs.length) : FewStandOut (exactBands xs) :=
  fewStandOut_map h (Real.sqrt_nonneg _) (fun _ _ _ hb => reach_mul_lt_of_ofCalls hb)
    (sum_sq_sub_mean_le h)

end

/-! ## In floating point -/

section

variable {n q m s a b r d μ η one : ℚ}

/-- The part of the square of the spread that comes from the missing centring is more than what is
lost by the roundings, of which the first three are those of the mean and of the two sides of the
difference under the root. -/
theorem sum_sq_sub_le_of_rounded (hn : 2 ≤ n) (hn' : n ≤ 2 ^ 26) (hm : 1 ≤ m) (hη : 0 ≤ η)
    (hη' : η ≤ 1 / 2 ^ 100) (hq : q ≤ (2 ^ 50 + 2 ^ 26) * m ^ 2)
    (hμ : m * (1 - roundoff) - η ≤ μ) (hμ' : μ ≤ m * (1 + roundoff) + η)
    (ha : q / (n - 1) * (1 - roundoff) - η ≤ a) (hb : b ≤ μ ^ 2 * (1 + roundoff) + η)
    (hab : b ≤ a) (hr : (a - b) * (1 - roundoff) ≤ r) (hd : r * (1 - 4 * roundoff) ≤ d ^ 2) :
    q - n * m ^ 2 + n * (μ - m) ^ 2 ≤ (n - 1) * d ^ 2 := by
  rw [roundoff] at *
  have hn₀ : 0 < n - 1 := by linarith
  have hm₀ : 1 ≤ m ^ 2 := one_le_pow₀ hm
  -- the mean and its square
  have hdistance : (μ - m) ^ 2 ≤ (m * (2 / 2 ^ 53)) ^ 2 := by
    refine sq_le_sq' ?_ ?_ <;> linarith
  have hsquare : μ ^ 2 ≤ (m * (1 + 3 / 2 ^ 54)) ^ 2 := by
    refine sq_le_sq' ?_ ?_ <;> linarith
  have hb' : b ≤ m ^ 2 * (1 + 6 / 2 ^ 53) := by linarith
  have htaken := mul_le_mul_of_nonneg_left hb' hn₀.le
  -- the sum of squares
  have hscaled : q * (1 - 1 / 2 ^ 53) - (n - 1) * η ≤ (n - 1) * a := by
    have hmul := mul_le_mul_of_nonneg_left ha hn₀.le
    have hcancel : (n - 1) * (q / (n - 1) * (1 - 1 / 2 ^ 53) - η) =
        q * (1 - 1 / 2 ^ 53) - (n - 1) * η := by
      rw [mul_sub, ← mul_assoc, mul_div_cancel₀ _ hn₀.ne']
    linarith
  -- the difference and its root
  have hroot : (n - 1) * (a - b) * (1 - 5 / 2 ^ 53) ≤ (n - 1) * d ^ 2 := by
    rw [mul_assoc]
    refine mul_le_mul_of_nonneg_left ?_ hn₀.le
    have hdiff : 0 ≤ a - b := by linarith
    linarith
  have hnη : n * η ≤ 2 ^ 26 * η := mul_le_mul_of_nonneg_right hn' hη
  have hnm : n * m ^ 2 ≤ 2 ^ 26 * m ^ 2 := mul_le_mul_of_nonneg_right hn' (by linarith)
  have hnd : n * (μ - m) ^ 2 ≤ 2 ^ 26 * (m * (2 / 2 ^ 53)) ^ 2 :=
    mul_le_mul hn' hdistance (sq_nonneg _) (by norm_num)
  linarith

/-- The same in units, of which there are so many in one. -/
theorem sum_sq_sub_le_of_rounded_units (hn : 2 ≤ n) (hn' : n ≤ 2 ^ 26) (hs : n ≤ s)
    (hone : 2 ^ 100 ≤ one) (hq : q ≤ (2 ^ 50 + 2 ^ 26) * (s / n) ^ 2)
    (hμ : s * one / n * (1 - roundoff) - 1 / 2 ≤ μ)
    (hμ' : μ ≤ s * one / n * (1 + roundoff) + 1 / 2)
    (ha : q * one / (n - 1) * (1 - roundoff) - 1 / 2 ≤ a)
    (hb : b ≤ μ * μ / one * (1 + roundoff) + 1 / 2) (hab : b ≤ a)
    (hr : (a - b) * (1 - roundoff) ≤ r) (hd : r * one * (1 - 4 * roundoff) ≤ d ^ 2) :
    q * one ^ 2 - 2 * μ * (s * one) + n * μ ^ 2 ≤ (n - 1) * d ^ 2 := by
  have hone₀ : 0 < one := by linarith
  have hn₀ : 0 < n := by linarith
  have hscale : ∀ {x y : ℚ}, x ≤ y → x / one ≤ y / one := fun h =>
    div_le_div_of_nonneg_right h hone₀.le
  have hcore := @sum_sq_sub_le_of_rounded n q (s / n) (a / one) (b / one) (r / one) (d / one)
    (μ / one) (1 / (2 * one)) hn hn' ((one_le_div hn₀).mpr hs) (by positivity) ?_ hq ?_ ?_ ?_ ?_
    (hscale hab) ?_ ?_
  · have hscaled := mul_le_mul_of_nonneg_right hcore (sq_nonneg one)
    calc q * one ^ 2 - 2 * μ * (s * one) + n * μ ^ 2
        = (q - n * (s / n) ^ 2 + n * (μ / one - s / n) ^ 2) * one ^ 2 := by
          field_simp
          ring
      _ ≤ (n - 1) * (d / one) ^ 2 * one ^ 2 := hscaled
      _ = (n - 1) * d ^ 2 := by field_simp
  · exact one_div_le_one_div_of_le (by positivity) (by linarith)
  · calc s / n * (1 - roundoff) - 1 / (2 * one)
        = (s * one / n * (1 - roundoff) - 1 / 2) / one := by field_simp
      _ ≤ μ / one := hscale hμ
  · calc μ / one ≤ (s * one / n * (1 + roundoff) + 1 / 2) / one := hscale hμ'
      _ = s / n * (1 + roundoff) + 1 / (2 * one) := by field_simp
  · calc q / (n - 1) * (1 - roundoff) - 1 / (2 * one)
        = (q * one / (n - 1) * (1 - roundoff) - 1 / 2) / one := by field_simp
      _ ≤ a / one := hscale ha
  · calc b / one ≤ (μ * μ / one * (1 + roundoff) + 1 / 2) / one := hscale hb
      _ = (μ / one) ^ 2 * (1 + roundoff) + 1 / (2 * one) := by field_simp
  · calc (a / one - b / one) * (1 - roundoff) = (a - b) * (1 - roundoff) / one := by field_simp
      _ ≤ r / one := hscale hr
  · calc r / one * (1 - 4 * roundoff) = r * one * (1 - 4 * roundoff) / one ^ 2 := by field_simp
      _ ≤ d ^ 2 / one ^ 2 := div_le_div_of_nonneg_right hd (sq_nonneg one)
      _ = (d / one) ^ 2 := (div_pow d one 2).symm

end

section

variable {ns : List ℕ} {total : ℕ}

/-- The squares of some counts add up to most if one of the counts is large and the others are
one. -/
theorem sum_squares_mul_le (h : Parts ns total) :
    4 * ((ns.map fun n => n * n).sum * ns.length ^ 2) ≤ total ^ 2 * (total + 1) ^ 2 := by
  obtain ⟨bound, hbound⟩ : ∃ bound, ns.length + bound = total + 1 :=
    ⟨total + 1 - ns.length, by have := h.length_le; omega⟩
  have hsum : (ns.map fun n => n * n).sum ≤ total * bound := by
    calc (ns.map fun n => n * n).sum ≤ (ns.map fun n => n * bound).sum := by
          refine List.sum_le_sum fun n hn => Nat.mul_le_mul_left n ?_
          have hle := h.add_length_le hn
          omega
      _ = total * bound := by rw [List.sum_map_mul_right, List.map_id', h.sum_eq]
  have hproduct : 4 * (ns.length * bound) ≤ (total + 1) ^ 2 := by
    rw [← hbound, ← Nat.mul_assoc]
    exact four_mul_le_sq_add ns.length bound
  calc 4 * ((ns.map fun n => n * n).sum * ns.length ^ 2)
      ≤ 4 * (total * bound * ns.length ^ 2) :=
        Nat.mul_le_mul_left 4 (Nat.mul_le_mul_right _ hsum)
    _ = total * ns.length * (4 * (ns.length * bound)) := by ring
    _ ≤ total * total * (total + 1) ^ 2 :=
        Nat.mul_le_mul (Nat.mul_le_mul_left total h.length_le) hproduct
    _ = total ^ 2 * (total + 1) ^ 2 := by rw [pow_two total]

end

/-- Call counts whose sums are exact, given with the number of all calls. -/
structure Counts (xs : List ℤ) (total : ℕ) : Prop where
  exact : Exact xs
  nonneg : ∀ x ∈ xs, 0 ≤ x
  parts : Parts (xs.map Int.natAbs) total
  total_le : total ≤ 2 ^ 26

/-- The squares of the distances, in units. -/
theorem sum_sq_mul_sub (xs : List ℤ) (one c : ℚ) :
    (xs.map fun x : ℤ => (x * one - c) ^ 2).sum =
      squares xs * one ^ 2 - 2 * c * (xs.sum * one) + xs.length * c ^ 2 := by
  induction xs with
  | nil => simp [squares]
  | cons x xs ih =>
      have hsquares : (squares (x :: xs) : ℚ) = x * x + squares xs := by
        rw [squares, List.map_cons, List.sum_cons, ← squares, Nat.cast_add, Nat.cast_mul,
          Nat.cast_natAbs, Int.cast_abs, abs_mul_abs_self]
      rw [List.map_cons, List.sum_cons, ih, hsquares, List.sum_cons, List.length_cons]
      push_cast
      ring

namespace Counts

variable {xs : List ℤ} {total : ℕ}

theorem sum_eq (h : Counts xs total) : xs.sum = total := by
  rw [← h.parts.sum_eq, Nat.cast_list_sum, List.map_map]
  conv_lhs => rw [← List.map_id' xs]
  refine congrArg List.sum (List.map_congr_left fun x hx => ?_)
  exact (Int.natAbs_of_nonneg (h.nonneg x hx)).symm

theorem mean_eq (h : Counts xs total) :
    ∃ i : Fin rankCount, mean (xs.map ofInt) = finite false i ∧ unitsOfRank i = meanUnits xs := by
  have htotal := h.total_le
  have hlt := nearestRank_ratio_lt (a := xs.sum.natAbs) (d := xs.length)
    (Nat.lt_of_lt_of_le Nat.two_pos h.exact.two_le)
    (by rw [h.sum_eq, Int.natAbs_natCast]; omega)
  refine ⟨⟨_, hlt⟩, ?_, rfl⟩
  rw [h.exact.mean_eq, decide_eq_false (by rw [h.sum_eq]; exact (Int.natCast_nonneg total).not_gt),
    ofRatio, ofUnits_eq_finite hlt]

theorem squares_le (h : Counts xs total) :
    (squares xs : ℚ) ≤ (2 ^ 50 + 2 ^ 26) * (total / xs.length : ℚ) ^ 2 := by
  have htwo := h.exact.two_le
  have hn : (0 : ℚ) < (xs.length : ℚ) ^ 2 := by
    have hpos : (0 : ℚ) < xs.length := Nat.cast_pos.mpr (by omega)
    positivity
  have hbound := sum_squares_mul_le h.parts
  rw [List.map_map, List.length_map] at hbound
  have hsucc : (total + 1) ^ 2 ≤ 4 * (2 ^ 50 + 2 ^ 26) :=
    (Nat.pow_le_pow_left (Nat.succ_le_succ h.total_le) 2).trans (by decide)
  have hproduct : squares xs * xs.length ^ 2 ≤ (2 ^ 50 + 2 ^ 26) * total ^ 2 := by
    have hscaled := hbound.trans (Nat.mul_le_mul_left (total ^ 2) hsucc)
    change 4 * (squares xs * xs.length ^ 2) ≤ _ at hscaled
    generalize squares xs * xs.length ^ 2 = product at *
    generalize total ^ 2 = square at *
    omega
  rw [div_pow, ← mul_div_assoc, le_div_iff₀ hn]
  exact_mod_cast hproduct

/-- Whatever the roundings, the squares of the distances from the mean are covered by the spread. -/
theorem exists_units (h : Counts xs total) : ∃ i j : Fin rankCount,
    mean (xs.map ofInt) = finite false i ∧ (radicand (xs.map ofInt)).sqrt = finite false j ∧
      (xs.map fun x : ℤ => ((x * unitsPerOne - unitsOfRank i : ℤ) : ℚ) ^ 2).sum ≤
        (xs.length - 1) * (unitsOfRank j : ℚ) ^ 2 := by
  obtain ⟨i, hmean, hi⟩ := h.mean_eq
  obtain ⟨k, l, hradicand, hle, hk, hl⟩ := h.exact.exists_radicand_eq_sub
  have hroot : HasUnits (radicand (xs.map ofInt))
      (unitsOfRank (nearestRank (unitsOfRank k - unitsOfRank l) 1)) := by
    rw [hradicand, sub_eq_ofUnits hle]
    exact hasUnits_ofUnits (nearestRank_sub_lt k l)
  obtain ⟨w, ⟨j, hspread, hw⟩, hsqrt⟩ := hroot.exists_sqrt
  refine ⟨i, j, hmean, hspread, ?_⟩
  have hpos : 0 < xs.length := Nat.lt_of_lt_of_le Nat.two_pos h.exact.two_le
  have hlength : xs.length ≤ total := by simpa using h.parts.length_le
  have hpred : ((xs.length - 1 : ℕ) : ℚ) = xs.length - 1 := by
    rw [Nat.cast_sub hpos, Nat.cast_one]
  have hmean_le := units_nearestRank_le hpos (xs.sum.natAbs * unitsPerOne)
  have hle_mean := le_units_nearestRank hpos (xs.sum.natAbs * unitsPerOne)
  have hle_squares := le_units_nearestRank (d := xs.length - 1)
    (Nat.sub_pos_of_lt h.exact.two_le) (squares xs * unitsPerOne)
  have hsquare_le := units_nearestRank_le unitsPerOne_pos (meanUnits xs * meanUnits xs)
  have hdifference := le_units_nearestRank_one (unitsOfRank k - unitsOfRank l)
  rw [← meanUnits, h.sum_eq, Int.natAbs_natCast, Nat.cast_mul] at hmean_le hle_mean
  rw [← hk, Nat.cast_mul, hpred] at hle_squares
  rw [← hl, Nat.cast_mul] at hsquare_le
  rw [Nat.cast_sub (unitsOfRank_strictMono.monotone hle)] at hdifference
  rw [Nat.cast_mul] at hsqrt
  have hcore := sum_sq_sub_le_of_rounded_units (by exact_mod_cast h.exact.two_le)
    (by exact_mod_cast hlength.trans h.total_le) (by exact_mod_cast hlength)
    two_pow_le_unitsPerOne h.squares_le hle_mean hmean_le hle_squares hsquare_le
    (by exact_mod_cast unitsOfRank_strictMono.monotone hle) hdifference hsqrt
  have hsum := sum_sq_mul_sub xs unitsPerOne (meanUnits xs)
  rw [h.sum_eq, Int.cast_natCast] at hsum
  rw [hi, hw]
  push_cast
  rw [hsum]
  exact hcore

end Counts

end Spread

/-! ## Visited nodes -/

namespace Statistics

open Numeric Binary64 Band

variable {ids : List String} {s : Statistics}

theorem values_of_ofVisits (h : ofVisits ids = .ok s) :
    s.calls.values = s.calls.keys.map s.callsOf := by
  rw [Roster.values, entries_calls_of_ofVisits h, List.map_map]
  rfl

theorem two_le_length_keys (h : ofVisits ids = .ok s) : 2 ≤ s.calls.keys.length := by
  rw [keys_calls_of_ofVisits h]
  exact two_le_of_ofVisits h

theorem counts_of_ofVisits (h : ofVisits ids = .ok s) (hle : ids.length ≤ 2 ^ 26) :
    Spread.Counts s.calls.values ids.length := by
  have hkeys := two_le_of_ofVisits h
  have hvalues := values_tally ids
  rw [← calls_of_ofVisits h] at hvalues
  have hnatAbs : s.calls.values.map Int.natAbs = (Roster.tally ids).values := by
    rw [calls_of_ofVisits h, values_tally_eq_map, List.map_map]
    exact List.map_id' _
  refine ⟨(sound_of_ofVisits h hle).exact, ?_, ⟨?_, ?_, ?_⟩, hle⟩
  · rw [hvalues]
    simp only [List.forall_mem_map]
    exact fun id _ => Int.natCast_nonneg _
  · rw [hvalues, List.map_map]
    simp only [List.forall_mem_map]
    exact fun id hid => List.count_pos_iff.mpr (List.mem_eraseDups.mp hid)
  · rw [hnatAbs, Roster.sum_values_tally]
  · exact List.length_pos_iff.mpr fun hnil => by
      rw [hnil] at hkeys
      exact absurd hkeys (by decide)

/-- In floating point, too, few nodes stand out. -/
theorem fewStandOut_bandOf (h : ofVisits ids = .ok s) (hle : ids.length ≤ 2 ^ 26) :
    FewStandOut (s.calls.keys.map s.bandOf) := by
  have hsound := sound_of_ofVisits h hle
  have hcounts := counts_of_ofVisits h hle
  obtain ⟨i, j, hmean, hspread, hsum⟩ := hcounts.exists_units
  rw [values_of_ofVisits h, List.map_map, List.length_map] at hsum
  refine fewStandOut_map (f := fun id => ((s.callsOf id * unitsPerOne : ℤ) : ℚ))
    (m := unitsOfRank i) (d := unitsOfRank j) (two_le_length_keys h) (Nat.cast_nonneg _) ?_ ?_
  · intro id hid b hb
    have hclassify := (bandOf_of_ofVisits h).1 id hid
    rw [hsound.mean, hmean, hsound.spread, hspread, hb] at hclassify
    have hcalls : (s.callsOf id).natAbs ≤ 2 ^ 53 := by
      rw [callsOf_of_ofVisits h, Int.natAbs_natCast]
      have hcount := List.count_le_length (a := id) (l := ids)
      omega
    have hlt := reach_mul_lt_of_classify hcalls hclassify
    exact_mod_cast hlt
  · simp only [Function.comp_def] at hsum
    push_cast at hsum ⊢
    exact hsum

end Statistics

open Numeric

/-- Fewer than a quarter as many values as there are, but one, are in a far band, and at least two
are in none, so with up to five values no band is far. This holds for the formulas without rounding
whatever the values, and with rounding for the nodes of up to two to the 26th visits. -/
theorem few_stand_out :
    (∀ xs : List ℚ, 2 ≤ xs.length → Band.FewStandOut (Spread.exactBands xs)) ∧
    ∀ ids s, Statistics.ofVisits ids = .ok s →
      Band.FewStandOut (Spread.exactBands (s.calls.values.map Int.cast)) ∧
        (ids.length ≤ 2 ^ 26 → Band.FewStandOut (s.calls.keys.map s.bandOf)) := by
  refine ⟨fun xs => Spread.fewStandOut_exactBands, fun ids s h => ⟨?_, ?_⟩⟩
  · refine Spread.fewStandOut_exactBands ?_
    rw [List.length_map, Statistics.values_of_ofVisits h, List.length_map]
    exact Statistics.two_le_length_keys h
  · exact Statistics.fewStandOut_bandOf h

/-- Of seven nodes, one is visited five times and the others once, which is enough for a far band;
with fewer nodes it would not be. -/
theorem few_stand_out_seven :
    (let xs : List ℚ := [1, 5, 1, 1, 1, 1, 1]
    2 ≤ xs.length ∧
      Band.ofCalls (5 : ℝ) (Spread.mean xs : ℚ) (Spread.exactSpread xs) = some .farHigh ∧
      Band.FewStandOut (Spread.exactBands xs)) ∧
    ∃ s, Statistics.ofVisits
        ["Start", "1", "2", "1", "3", "1", "4", "1", "5", "1", "Exit"] = .ok s ∧
      s.bandOf "1" = some .farHigh ∧
      Band.FewStandOut (Spread.exactBands (s.calls.values.map Int.cast)) ∧
      Band.FewStandOut (s.calls.keys.map s.bandOf) := by
  obtain ⟨hexact, hvisits⟩ := few_stand_out
  constructor
  · intro xs
    have htwo : 2 ≤ xs.length := by decide
    have hmean : Spread.mean xs = 11 / 7 := by decide +kernel
    have hradicand : Spread.radicand xs = 793 / 294 := by decide +kernel
    have hlt : Spread.exactSpread xs < 12 / 7 := by
      rw [Spread.exactSpread, hradicand, Real.sqrt_lt' (by norm_num)]
      norm_num
    refine ⟨htwo, ?_, hexact xs htwo⟩
    rw [hmean, Band.ofCalls, Band.all, List.find?_cons_of_pos]
    simp only [Band.beyond, Band.limit, Band.isAbove, if_true, Band.reach, decide_eq_true_eq]
    push_cast
    linarith
  · have hband : (Statistics.ofVisits
        ["Start", "1", "2", "1", "3", "1", "4", "1", "5", "1", "Exit"]).toOption.bind
          (·.bandOf "1") = some .farHigh := by decide +kernel
    cases hok : Statistics.ofVisits
        ["Start", "1", "2", "1", "3", "1", "4", "1", "5", "1", "Exit"] with
    | error fault => simp [hok, Except.toOption] at hband
    | ok s =>
        rw [hok, Except.toOption, Option.bind_some] at hband
        exact ⟨s, rfl, hband, (hvisits _ s hok).1, (hvisits _ s hok).2 (by decide)⟩

end VisitGraph
