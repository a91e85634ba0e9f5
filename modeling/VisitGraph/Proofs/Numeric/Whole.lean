import Mathlib.Algebra.Order.Ring.Int
import VisitGraph.Proofs.Numeric.Rank

/-! # Exact operands

The integers of at most 53 binary digits are met exactly. Their sums, squares and quotients are
therefore the exact ones, rounded once. The difference of two magnitudes is not negative if the
ranks are in order. -/

namespace VisitGraph.Numeric.Binary64

variable {m n : ℤ} {a d : ℕ}

theorem add_def (x y : Binary64) : x + y = add x y := rfl

theorem sub_def (x y : Binary64) : x - y = add x (neg y) := rfl

theorem mul_def (x y : Binary64) : x * y = mul x y := rfl

theorem div_def (x y : Binary64) : x / y = div x y := rfl

theorem natCast_def : (Nat.cast : ℕ → Binary64) = fun k => ofRatio false k 1 := rfl

theorem ofUnits_eq_finite (h : nearestRank a d < rankCount) (negative : Bool) :
    ofUnits negative a d = finite negative ⟨nearestRank a d, h⟩ :=
  dif_pos h

theorem ofUnits_mul_right {c : ℕ} (hc : 0 < c) (negative : Bool) (a d : ℕ) :
    ofUnits negative (a * c) (d * c) = ofUnits negative a d := by
  simp only [ofUnits, nearestRank_mul_right hc]

theorem ofUnits_mul_self {c : ℕ} (hc : 0 < c) (negative : Bool) (a : ℕ) :
    ofUnits negative (a * c) c = ofUnits negative a 1 := by
  rw [← ofUnits_mul_right hc negative a 1, Nat.one_mul]

/-! ## Ratios of integers -/

theorem nearestRank_ratio_lt (hd : 0 < d) (ha : a ≤ 2 ^ 53) :
    nearestRank (a * unitsPerOne) d < rankCount := by
  refine nearestRank_lt_rankCount hd (e := 54) (by decide) ?_
  calc a * unitsPerOne < 2 ^ 54 * unitsPerOne :=
        Nat.mul_lt_mul_of_pos_right (by omega) unitsPerOne_pos
    _ = unitsPerOne * 2 ^ 54 := Nat.mul_comm _ _
    _ ≤ d * (unitsPerOne * 2 ^ 54) := Nat.le_mul_of_pos_left _ hd

/-- A quotient with a small divisor is rounded up by at most one part in two to the 53rd. -/
theorem units_ratio_le (hd : 0 < d) (hle : d ≤ 2 ^ 52) :
    unitsOfRank (nearestRank (a * unitsPerOne) d) * d * 2 ^ 53 ≤
      a * unitsPerOne * (2 ^ 53 + 1) := by
  rcases Nat.eq_zero_or_pos a with rfl | ha
  · have hzero := unitsOfRank_nearestRank_mul hd (Nat.zero_le (2 ^ 53)) 0
    rw [Nat.zero_mul, Nat.zero_mul] at hzero
    rw [Nat.zero_mul, hzero, Nat.zero_mul, Nat.zero_mul, Nat.zero_mul]
  · have hone : 2 ^ 104 ≤ unitsPerOne := by
      rw [unitsPerOne_eq]
      exact Nat.pow_le_pow_right (by decide) (by decide)
    refine (relativeError_nearestRank hd ?_).1
    calc d * 2 ^ 52 ≤ 2 ^ 104 := by omega
      _ ≤ unitsPerOne := hone
      _ ≤ a * unitsPerOne := Nat.le_mul_of_pos_left _ ha

/-! ## Integers -/

/-- The number is finite, with the sign and the magnitude of an integer. -/
structure Holds (x : Binary64) (n : ℤ) (rank : Fin rankCount) : Prop where
  eq_finite : x = finite (n < 0) rank
  units : unitsOfRank rank = n.natAbs * unitsPerOne

theorem exists_holds_ofInt (h : n.natAbs ≤ 2 ^ 53) : ∃ rank, Holds (ofInt n) n rank := by
  have hrank := nearestRank_ratio_lt Nat.one_pos h
  have hunits := unitsOfRank_nearestRank_mul Nat.one_pos h fractionDigits
  rw [Nat.mul_one, ← unitsPerOne_eq] at hunits
  exact ⟨_, ofUnits_eq_finite hrank _, hunits⟩

theorem Holds.signedUnits_eq {x : Binary64} {rank : Fin rankCount} (h : Holds x n rank) :
    signedUnits (n < 0) rank = n * unitsPerOne := by
  rw [signedUnits, h.units, Nat.cast_mul]
  by_cases hn : n < 0
  · rw [if_pos (by simpa using hn), ← Int.neg_mul]
    congr 1
    omega
  · rw [if_neg (by simpa using hn)]
    congr 1
    omega

theorem mul_unitsPerOne_neg_iff (n : ℤ) : n * unitsPerOne < 0 ↔ n < 0 := by
  have hone : (0 : ℤ) < unitsPerOne := by exact_mod_cast unitsPerOne_pos
  conv_lhs => rw [← Int.zero_mul (unitsPerOne : ℤ)]
  exact mul_lt_mul_iff_of_pos_right hone

/-- A sum of integers is rounded once. -/
theorem ofInt_add (hm : m.natAbs ≤ 2 ^ 53) (hn : n.natAbs ≤ 2 ^ 53) :
    ofInt m + ofInt n = ofInt (m + n) := by
  obtain ⟨i, hi⟩ := exists_holds_ofInt hm
  obtain ⟨j, hj⟩ := exists_holds_ofInt hn
  have hone : 0 < (unitsPerOne : ℤ) := by exact_mod_cast unitsPerOne_pos
  have hsum : signedUnits (m < 0) i + signedUnits (n < 0) j = (m + n) * unitsPerOne := by
    rw [hi.signedUnits_eq, hj.signedUnits_eq, Int.add_mul]
  rw [add_def, hi.eq_finite, hj.eq_finite, add, hsum]
  by_cases hzero : m + n = 0
  · have hsigns : (decide (m < 0) && decide (n < 0)) = false := by
      rw [← Bool.decide_and]
      exact decide_eq_false (by omega)
    rw [hzero, Int.zero_mul, if_pos rfl, hsigns, zero, ofInt, ofRatio, Int.natAbs_zero,
      Nat.zero_mul]
    rfl
  · rw [if_neg (Int.mul_ne_zero hzero hone.ne'), ofInt, ofRatio, Int.natAbs_mul, Int.natAbs_natCast]
    simp only [mul_unitsPerOne_neg_iff]

/-- A square of an integer is rounded once. -/
theorem ofInt_mul_self (hn : n.natAbs ≤ 2 ^ 53) : ofInt n * ofInt n = ofInt (n * n) := by
  obtain ⟨i, hi⟩ := exists_holds_ofInt hn
  have hsign : decide (n * n < 0) = false := decide_eq_false (mul_self_nonneg n).not_gt
  have hproduct : n.natAbs * unitsPerOne * (n.natAbs * unitsPerOne) =
      n.natAbs * n.natAbs * unitsPerOne * unitsPerOne := by ring
  rw [mul_def, hi.eq_finite, mul, hi.units, hproduct, bne_self_eq_false, ofInt, ofRatio,
    Int.natAbs_mul, hsign]
  exact ofUnits_mul_self unitsPerOne_pos _ _

theorem natCast_eq_ofInt (k : ℕ) : (k : Binary64) = ofInt k := by
  have hsign : decide ((k : ℤ) < 0) = false := decide_eq_false (Int.natCast_nonneg k).not_gt
  rw [ofInt, hsign, Int.natAbs_natCast, natCast_def]

/-- A quotient of integers is rounded once. -/
theorem ofInt_div_natCast {k : ℕ} (hn : n.natAbs ≤ 2 ^ 53) (hpos : 0 < k) (hk : k ≤ 2 ^ 53) :
    ofInt n / k = ofRatio (n < 0) n.natAbs k := by
  obtain ⟨i, hi⟩ := exists_holds_ofInt hn
  obtain ⟨j, hj⟩ := exists_holds_ofInt (n := k) (by simpa using hk)
  have hunits : unitsOfRank j = k * unitsPerOne := by rw [hj.units, Int.natAbs_natCast]
  have hne : unitsOfRank j ≠ 0 := by
    rw [hunits]
    exact (Nat.mul_pos hpos unitsPerOne_pos).ne'
  rw [div_def, natCast_eq_ofInt, hi.eq_finite, hj.eq_finite, div, if_neg hne, hi.units, hunits,
    ofUnits_mul_right unitsPerOne_pos, decide_eq_false (Int.natCast_nonneg k).not_gt,
    Bool.bne_false]
  rfl

/-- A smaller magnitude is taken from a larger one with a single rounding. -/
theorem sub_eq_ofUnits {i j : Fin rankCount} (h : j ≤ i) :
    finite false i - finite false j = ofUnits false (unitsOfRank i - unitsOfRank j) 1 := by
  have hle : unitsOfRank j ≤ unitsOfRank i := unitsOfRank_strictMono.monotone h
  have hsum : signedUnits false i + signedUnits true j = (unitsOfRank i - unitsOfRank j : ℕ) := by
    rw [signedUnits, signedUnits, if_neg Bool.false_ne_true, if_pos rfl, Nat.cast_sub hle,
      Int.sub_eq_add_neg]
  rw [sub_def, neg, Bool.not_false, add, hsum]
  generalize unitsOfRank i - unitsOfRank j = units
  cases units with
  | zero => rw [Nat.cast_zero, if_pos rfl, Bool.false_and, zero]
  | succ units => rw [if_neg (by omega), decide_eq_false (by omega), Int.natAbs_natCast]

theorem nearestRank_sub_lt (i j : Fin rankCount) :
    nearestRank (unitsOfRank i - unitsOfRank j) 1 < rankCount := by
  refine lt_of_le_of_lt ?_ i.isLt
  conv_rhs => rw [← nearestRank_unitsOfRank i]
  exact nearestRank_mono Nat.one_pos Nat.one_pos (by omega)

/-- What is left is finite. -/
theorem exists_sub_eq_finite {i j : Fin rankCount} (h : j ≤ i) :
    ∃ rank, finite false i - finite false j = finite false rank :=
  ⟨_, (sub_eq_ofUnits h).trans (ofUnits_eq_finite (nearestRank_sub_lt i j) false)⟩

end VisitGraph.Numeric.Binary64
