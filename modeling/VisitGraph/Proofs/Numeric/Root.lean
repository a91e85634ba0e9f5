import Mathlib.Data.Nat.Sqrt
import VisitGraph.Proofs.Numeric.Accuracy

/-! # Rounded roots

The root of a natural number is computed digit by digit, and it is the largest one whose square is
not too large. The square of the rounded root of a floating point number is near to that number. -/

namespace VisitGraph.Numeric

/-! ## Integer roots -/

theorem floorSqrtOfDigits_spec (digits : ℕ) {n : ℕ} (h : n < 4 ^ digits) :
    floorSqrtOfDigits digits n * floorSqrtOfDigits digits n ≤ n ∧
      n < (floorSqrtOfDigits digits n + 1) * (floorSqrtOfDigits digits n + 1) := by
  induction digits generalizing n with
  | zero =>
      rw [Nat.pow_zero] at h
      rw [floorSqrtOfDigits]
      omega
  | succ digits ih =>
      rw [Nat.pow_succ] at h
      obtain ⟨hlower, hupper⟩ := ih (Nat.div_lt_of_lt_mul (by omega) : n / 4 < 4 ^ digits)
      rw [floorSqrtOfDigits]
      generalize floorSqrtOfDigits digits (n / 4) = root at hlower hupper ⊢
      have hsquare : 2 * root * (2 * root) = 4 * (root * root) := by ring
      have hnext : (2 * root + 1 + 1) * (2 * root + 1 + 1) = 4 * ((root + 1) * (root + 1)) := by
        ring
      by_cases hodd : (2 * root + 1) * (2 * root + 1) ≤ n
      · rw [if_pos hodd]
        omega
      · rw [if_neg hodd]
        omega

/-- The computed root is the integer root. -/
theorem floorSqrt_eq_sqrt (n : ℕ) : floorSqrt n = n.sqrt := by
  refine Nat.eq_sqrt.mpr (floorSqrtOfDigits_spec _ ?_)
  have hpow : (4 : ℕ) ^ (n.log2 / 2 + 1) = 2 ^ (2 * (n.log2 / 2 + 1)) := by rw [Nat.pow_mul]
  calc n < 2 ^ (n.log2 + 1) := Nat.lt_log2_self
    _ ≤ 4 ^ (n.log2 / 2 + 1) := by
        rw [hpow]
        exact Nat.pow_le_pow_right Nat.two_pos (by omega)

/-- Between two numbers lies the root of their product, and what stands for the part that is cut
off does not lead out of them. -/
theorem two_mul_sqrt_add_le (a b : ℕ) :
    2 * (a * b).sqrt + (if (a * b).sqrt * (a * b).sqrt = a * b then 0 else 1) ≤ 2 * max a b := by
  have hle : (a * b).sqrt * (a * b).sqrt ≤ max a b * max a b :=
    (Nat.sqrt_le (a * b)).trans (Nat.mul_le_mul (le_max_left a b) (le_max_right a b))
  rcases (Nat.mul_self_le_mul_self_iff.mp hle).eq_or_lt with heq | hlt
  · have hexact : (a * b).sqrt * (a * b).sqrt = a * b := by
      refine (Nat.sqrt_le (a * b)).antisymm ?_
      rw [heq]
      exact Nat.mul_le_mul (le_max_left a b) (le_max_right a b)
    rw [if_pos hexact]
    omega
  · split_ifs <;> omega

/-! ## Roots of floating point numbers -/

namespace Binary64

/-- A large root is cut off and rounded by next to nothing. -/
theorem mul_le_sq_of_lt_succ_sq {a root rest : ℕ} {w : ℚ} (hroot : a < (root + 1) * (root + 1))
    (hlarge : 2 ^ 108 ≤ a)
    (hw : ((2 * root + rest : ℕ) : ℚ) / (2 : ℕ) * (1 - roundoff) - 1 / 2 ≤ w) :
    a * (1 - 4 * roundoff) ≤ w ^ 2 := by
  have hsquare : (a : ℚ) ≤ (root + 1) ^ 2 := by
    rw [pow_two]
    exact_mod_cast hroot.le
  have hroot' : (2 : ℚ) ^ 54 ≤ root + 1 := by
    have hlt : 2 ^ 54 * 2 ^ 54 < (root + 1) * (root + 1) := by omega
    exact_mod_cast (Nat.mul_self_lt_mul_self_iff.mp hlt).le
  have hrest : (0 : ℚ) ≤ rest := Nat.cast_nonneg rest
  have hle : (root + 1) * (1 - 2 * roundoff) ≤ w := by
    push_cast at hw
    rw [roundoff] at hw ⊢
    linarith
  calc a * (1 - 4 * roundoff) ≤ (root + 1) ^ 2 * (1 - 2 * roundoff) ^ 2 := by
        refine mul_le_mul hsquare ?_ (by rw [roundoff]; norm_num) (by positivity)
        rw [roundoff]
        norm_num
    _ = ((root + 1) * (1 - 2 * roundoff)) ^ 2 := (mul_pow _ _ 2).symm
    _ ≤ w ^ 2 := pow_le_pow_left₀ (mul_nonneg (by positivity) (by rw [roundoff]; norm_num)) hle 2

/-- The square of the root falls short by no more than four roundings would take away. -/
theorem HasUnits.exists_sqrt {x : Binary64} {u : ℕ} (h : HasUnits x u) :
    ∃ w, HasUnits x.sqrt w ∧ (u * unitsPerOne : ℕ) * (1 - 4 * roundoff) ≤ (w : ℚ) ^ 2 := by
  obtain ⟨rank, rfl, rfl⟩ := h
  by_cases hzero : unitsOfRank rank = 0
  · refine ⟨0, ⟨rank, by rw [sqrt, if_pos hzero], hzero⟩, ?_⟩
    rw [hzero, Nat.zero_mul, Nat.cast_zero, zero_mul, zero_pow two_ne_zero]
  have hlarge : 2 ^ 108 ≤ unitsOfRank rank * unitsPerOne := by
    refine le_trans ?_ (Nat.le_mul_of_pos_left unitsPerOne (Nat.pos_of_ne_zero hzero))
    rw [unitsPerOne_eq]
    exact Nat.pow_le_pow_right Nat.two_pos (by decide)
  have hmax : nearestRank (max (unitsOfRank rank) unitsPerOne) 1 < rankCount := by
    rcases max_choice (unitsOfRank rank) unitsPerOne with hmax | hmax
    · rw [hmax, nearestRank_unitsOfRank]
      exact rank.isLt
    · have hone := nearestRank_ratio_lt Nat.one_pos (show 1 ≤ 2 ^ 53 by decide)
      rw [Nat.one_mul] at hone
      rw [hmax]
      exact hone
  have hbound := two_mul_sqrt_add_le (unitsOfRank rank) unitsPerOne
  have hroot := Nat.lt_succ_sqrt (unitsOfRank rank * unitsPerOne)
  rw [sqrt, if_neg hzero, if_neg Bool.false_ne_true]
  simp only [floorSqrt_eq_sqrt]
  generalize unitsOfRank rank * unitsPerOne = a at hlarge hbound hroot ⊢
  generalize (if a.sqrt * a.sqrt = a then 0 else 1) = rest at hbound ⊢
  have hlt : nearestRank (2 * a.sqrt + rest) 2 < rankCount :=
    (nearestRank_mono Nat.two_pos Nat.one_pos (by omega)).trans_lt hmax
  exact ⟨_, hasUnits_ofUnits hlt,
    mul_le_sq_of_lt_succ_sq hroot hlarge (le_units_nearestRank Nat.two_pos _)⟩

end Binary64

end VisitGraph.Numeric
