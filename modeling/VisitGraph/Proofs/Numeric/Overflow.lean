import Mathlib.Tactic.Zify
import VisitGraph.Numeric.Quantity
import VisitGraph.Proofs.Numeric.Interval

/-! # Overflow

An integer has a floating point number near it unless it lies at or beyond the middle between the
largest magnitude and the one that would follow it. -/

namespace VisitGraph.Numeric.Binary64

/-- The middle between the largest magnitude and the one that would follow it. -/
theorem unitsOfRank_largest_add_next :
    unitsOfRank (rankCount - 1) + unitsOfRank (rankCount - 1 + 1) =
      2 * ((2 ^ 1024 - 2 ^ 970) * unitsPerOne) := by
  have hlargest : rankCount - 1 = 2045 * 2 ^ 52 + (2 ^ 53 - 1) := by
    rw [rankCount_eq]
    decide
  have hnext : 2045 * 2 ^ 52 + (2 ^ 53 - 1) + 1 = 2045 * 2 ^ 52 + 2 ^ 53 := by decide
  have hsum : 2 ^ 53 - 1 + 2 ^ 53 = 2 ^ 54 - 1 := by decide
  have hexponent : 2045 = 970 + (fractionDigits + 1) := rfl
  have hpowers : ∀ e f : ℕ,
      (2 ^ 54 - 1) * 2 ^ (e + (f + 1)) = 2 * ((2 ^ (54 + e) - 2 ^ e) * 2 ^ f) := fun e f => by
    have hdifference : 2 ^ (54 + e) - 2 ^ e = (2 ^ 54 - 1) * 2 ^ e := by
      rw [Nat.sub_mul, Nat.one_mul, Nat.pow_add]
    rw [hdifference]
    ring
  rw [hlargest, hnext, unitsOfRank_mul_add (.inr (by decide)) (by decide),
    unitsOfRank_mul_add (.inr (by decide)) le_rfl, ← Nat.add_mul, hsum, hexponent, hpowers,
    ← unitsPerOne_eq]

/-- The integers from the middle beyond the largest magnitude on are not finite. -/
theorem nearestRank_lt_rankCount_iff (a : ℕ) :
    nearestRank (a * unitsPerOne) 1 < rankCount ↔ a < 2 ^ 1024 - 2 ^ 970 := by
  have hodd : ¬ (rankCount - 1) % 2 = 0 := by
    rw [rankCount_eq]
    decide
  have hrank : nearestRank (a * unitsPerOne) 1 < rankCount ↔
      nearestRank (a * unitsPerOne) 1 ≤ rankCount - 1 :=
    Nat.lt_iff_le_pred (by decide)
  rw [hrank, nearestRank_le_iff Nat.one_pos, unitsOfRank_largest_add_next, Nat.mul_one,
    Nat.mul_lt_mul_left Nat.two_pos, Nat.mul_lt_mul_right unitsPerOne_pos]
  exact ⟨fun h => h.resolve_right fun hmiddle => hodd hmiddle.2, .inl⟩

/-! ## Conversion -/

variable {n : ℤ}

theorem ofInt?_of_lt (h : nearestRank (n.natAbs * unitsPerOne) 1 < rankCount) :
    ofInt? n = .ok (ofInt n) := by
  have hfinite : ofInt n = finite (n < 0) ⟨_, h⟩ := ofUnits_eq_finite h _
  -- opened as a function: applied, it would be evaluated down to its units
  generalize hf : ofInt? = f
  delta ofInt? at hf
  rw [← hf]
  beta_reduce
  rw [hfinite]

theorem ofInt?_of_not_lt (h : ¬ nearestRank (n.natAbs * unitsPerOne) 1 < rankCount) :
    ofInt? n = .error .beyondBinary64 := by
  have hinfinite : ofInt n = infinity (n < 0) := dif_neg h
  generalize hf : ofInt? = f
  delta ofInt? at hf
  rw [← hf]
  beta_reduce
  rw [hinfinite]

/-- An integer is converted unless it overflows. -/
theorem ofInt?_eq (n : ℤ) : ofInt? n =
    if |n| < 2 ^ 1024 - 2 ^ 970 then .ok (ofInt n) else .error .beyondBinary64 := by
  have habs : ∀ j k : ℕ, j ≤ k → (|n| < 2 ^ k - 2 ^ j ↔ n.natAbs < 2 ^ k - 2 ^ j) :=
    fun j k h => by
      have hpow : 2 ^ j ≤ 2 ^ k := Nat.pow_le_pow_right (by decide) h
      rw [Int.abs_eq_natAbs]
      zify [hpow]
  have hbound : nearestRank (n.natAbs * unitsPerOne) 1 < rankCount ↔ |n| < 2 ^ 1024 - 2 ^ 970 :=
    (nearestRank_lt_rankCount_iff _).trans (habs 970 1024 (by decide)).symm
  by_cases hn : |n| < 2 ^ 1024 - 2 ^ 970
  · rw [if_pos hn, ofInt?_of_lt (hbound.mpr hn)]
  · rw [if_neg hn, ofInt?_of_not_lt (hbound.not.mpr hn)]

end VisitGraph.Numeric.Binary64
