import VisitGraph.Proofs.Numeric.Nearest

/-! # Shares of a whole

A share is the quotient of a count by the total that the count is a part of. Up to a total of two to
the 53rd, rounding keeps different shares apart. -/

namespace VisitGraph.Numeric.Binary64

variable {n d k count count' total : ℕ}

/-- A ratio that can be counted in 53 digits with some spacing is rounded by at most half of it. -/
theorem error_nearestRank_of_lt (hd : 0 < d) (h : n < d * 2 ^ k * 2 ^ 53) :
    2 * (unitsOfRank (nearestRank n d) * d) ≤ 2 * n + d * 2 ^ k ∧
      2 * n ≤ 2 * (unitsOfRank (nearestRank n d) * d) + d * 2 ^ k := by
  have hshift : shiftOf n d ≤ k := by
    rw [Nat.mul_assoc, ← Nat.pow_add] at h
    rcases (isShift_shiftOf hd n).eq_zero_or_lt h with hzero | hexp <;> omega
  have hspacing : d * 2 ^ shiftOf n d ≤ d * 2 ^ k :=
    Nat.mul_le_mul_left d (Nat.pow_le_pow_right (by decide) hshift)
  obtain ⟨hupper, hlower⟩ := error_nearestRank hd n
  omega

/-- The rank of a share. -/
def shareRank (count total : ℕ) : ℕ :=
  nearestRank (count * unitsPerOne) total

/-- The spacing of the magnitudes just below one, in units. -/
def spacingBelowOne : ℕ := 2 ^ (fractionDigits - 53)

theorem spacingBelowOne_pos : 0 < spacingBelowOne :=
  Nat.two_pow_pos _

theorem unitsPerOne_eq_mul_spacing : unitsPerOne = spacingBelowOne * 2 ^ 53 := by
  rw [unitsPerOne_eq, spacingBelowOne, ← Nat.pow_add, Nat.sub_add_cancel (by decide)]

theorem shareRank_lt_rankCount (hpos : 0 < total) (hle : count ≤ total) :
    shareRank count total < rankCount := by
  refine nearestRank_lt_rankCount hpos (e := 1) (by decide) ?_
  have hdouble : unitsPerOne < unitsPerOne * 2 ^ 1 :=
    (Nat.lt_mul_iff_one_lt_right unitsPerOne_pos).mpr (by decide)
  exact (Nat.mul_le_mul_right _ hle).trans_lt (Nat.mul_lt_mul_of_pos_left hdouble hpos)

theorem ofRatio_eq_finite (hpos : 0 < total) (hle : count ≤ total) :
    ofRatio false count total =
      finite false ⟨shareRank count total, shareRank_lt_rankCount hpos hle⟩ :=
  ofUnits_eq_finite _ _

theorem isNearest_share (hpos : 0 < total) (hle : count ≤ total) :
    IsNearest (count / total) (ofRatio false count total) :=
  isNearest_ofRatio hpos (shareRank_lt_rankCount hpos hle)

theorem unitsOfRank_shareRank_self (hpos : 0 < total) :
    unitsOfRank (shareRank total total) = unitsPerOne := by
  have hexact := unitsOfRank_nearestRank_mul hpos (m := 1) (by decide) fractionDigits
  rwa [Nat.one_mul, ← unitsPerOne_eq, Nat.mul_comm] at hexact

/-- With the largest total all shares are magnitudes. -/
theorem unitsOfRank_shareRank_pow (hle : count ≤ 2 ^ 53) :
    unitsOfRank (shareRank count (2 ^ 53)) = count * spacingBelowOne := by
  have hunits : count * unitsPerOne = count * spacingBelowOne * 2 ^ 53 := by
    rw [unitsPerOne_eq_mul_spacing, Nat.mul_assoc]
  rw [shareRank, hunits, spacingBelowOne, unitsOfRank_nearestRank_mul (Nat.two_pow_pos 53) hle]

/-- A share is rounded by at most half of the spacing below one. -/
theorem error_shareRank (hpos : 0 < total) (hle : count ≤ total) :
    2 * (unitsOfRank (shareRank count total) * total) ≤
        2 * (count * unitsPerOne) + total * spacingBelowOne ∧
      2 * (count * unitsPerOne) ≤
        2 * (unitsOfRank (shareRank count total) * total) + total * spacingBelowOne := by
  rcases hle.eq_or_lt with rfl | hlt
  · rw [unitsOfRank_shareRank_self hpos, Nat.mul_comm unitsPerOne]
    exact ⟨Nat.le_add_right _ _, Nat.le_add_right _ _⟩
  · refine error_nearestRank_of_lt hpos (k := fractionDigits - 53) ?_
    rw [← spacingBelowOne, Nat.mul_assoc, ← unitsPerOne_eq_mul_spacing]
    exact Nat.mul_lt_mul_of_pos_right hlt unitsPerOne_pos

/-- Different shares of one total keep their order when they are rounded. -/
theorem shareRank_lt (hlt : count < count') (hle : count' ≤ total) (htotal : total ≤ 2 ^ 53) :
    shareRank count total < shareRank count' total := by
  rw [← unitsOfRank_strictMono.lt_iff_lt]
  rcases htotal.eq_or_lt with rfl | htotal
  · rw [unitsOfRank_shareRank_pow (hlt.le.trans hle), unitsOfRank_shareRank_pow hle]
    exact Nat.mul_lt_mul_of_pos_right hlt spacingBelowOne_pos
  · by_contra! hunits
    have hpos : 0 < total := by omega
    have hupper := (error_shareRank hpos (hlt.le.trans hle)).1
    have hlower := (error_shareRank hpos hle).2
    have hscaled := Nat.mul_le_mul_right total hunits
    -- the gap between the shares is more than the two errors together
    have hgap : count * unitsPerOne + unitsPerOne ≤ count' * unitsPerOne := by
      rw [← Nat.succ_mul]
      exact Nat.mul_le_mul_right _ hlt
    have hone : total * spacingBelowOne < unitsPerOne := by
      rw [unitsPerOne_eq_mul_spacing, Nat.mul_comm]
      exact Nat.mul_lt_mul_of_pos_left htotal spacingBelowOne_pos
    omega

theorem shareRank_lt_iff (hle : count ≤ total) (hle' : count' ≤ total) (htotal : total ≤ 2 ^ 53) :
    shareRank count total < shareRank count' total ↔ count < count' := by
  refine ⟨fun h => ?_, fun h => shareRank_lt h hle' htotal⟩
  by_contra! hge
  rcases hge.eq_or_lt with rfl | hlt
  · exact lt_irrefl _ h
  · exact lt_asymm h (shareRank_lt hlt hle htotal)

end VisitGraph.Numeric.Binary64
