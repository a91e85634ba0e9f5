import VisitGraph.Proofs.Numeric.Nearest

/-! # What is rounded to a magnitude

The ratios of one rank lie between the middles towards the two neighbouring magnitudes, and a middle
belongs to the even rank. So a ratio that is close to a magnitude has its rank. -/

namespace VisitGraph.Numeric.Binary64

variable {n n' d d' rank : ℕ}

/-- The rank depends on the ratio alone. -/
theorem nearestRank_congr (hd : 0 < d) (hd' : 0 < d') (h : n * d' = n' * d) :
    nearestRank n d = nearestRank n' d' :=
  (nearestRank_mono hd hd' h.le).antisymm (nearestRank_mono hd' hd h.ge)

/-! ## Middles -/

/-- A ratio below the middle of two neighbouring magnitudes does not have a rank above the lower
one, nor does the middle itself if the lower rank is even. -/
theorem nearestRank_le_iff (hd : 0 < d) : nearestRank n d ≤ rank ↔
    2 * n < (unitsOfRank rank + unitsOfRank (rank + 1)) * d ∨
      (2 * n = (unitsOfRank rank + unitsOfRank (rank + 1)) * d ∧ rank % 2 = 0) := by
  constructor
  · intro hle
    obtain ⟨hupper, htie⟩ := two_mul_le_of_nearestRank_lt hd (Nat.lt_succ_of_le hle)
    rw [← Nat.add_mul] at hupper htie
    rcases hle.eq_or_lt with rfl | hlt
    · exact hupper.lt_or_eq.imp id fun heq => ⟨heq, htie heq⟩
    · have hunits := Nat.add_lt_add_right (unitsOfRank_strictMono hlt) (unitsOfRank (rank + 1))
      exact .inl (hupper.trans_lt (Nat.mul_lt_mul_of_pos_right hunits hd))
  · intro h
    by_contra! hlt
    obtain ⟨hlower, htie⟩ := le_two_mul_of_lt_nearestRank hd hlt
    rw [← Nat.add_mul] at hlower htie
    have hnext : rank + 1 ≤ nearestRank n d := hlt
    rcases hnext.eq_or_lt with heq | hbeyond
    · -- the middle belongs to one of the two ranks only, and this is the even one
      rw [← heq] at hlower htie
      rcases h with hbelow | ⟨hmiddle, heven⟩
      · omega
      · have heven' := htie hmiddle.symm
        omega
    · have hunits := Nat.add_lt_add_left (unitsOfRank_strictMono hbeyond) (unitsOfRank rank)
      have hmiddle := Nat.mul_lt_mul_of_pos_right hunits hd
      omega

/-- The gap below a magnitude is at least one part of it in two to the 53rd. -/
theorem unitsOfRank_gap (rank : ℕ) :
    unitsOfRank (rank + 1) + unitsOfRank rank * 2 ^ 53 ≤ unitsOfRank (rank + 1) * 2 ^ 53 := by
  obtain ⟨shift, k, rfl, hge, hlt⟩ := exists_shift_count rank
  have hnext : unitsOfRank (shift * 2 ^ 52 + k + 1) = (k + 1) * 2 ^ shift := by
    rw [Nat.add_assoc, unitsOfRank_mul_add (hge.imp id fun h => h.trans k.le_succ) hlt]
  rw [hnext, unitsOfRank_mul_add hge hlt.le]
  calc (k + 1) * 2 ^ shift + k * 2 ^ shift * 2 ^ 53
      ≤ 2 ^ 53 * 2 ^ shift + k * 2 ^ shift * 2 ^ 53 :=
        Nat.add_le_add_right (Nat.mul_le_mul_right _ hlt) _
    _ = (k + 1) * 2 ^ shift * 2 ^ 53 := by ring

/-- A ratio that differs from a magnitude by less than one part in two to the 54th has its rank. -/
theorem nearestRank_eq_of_near {e : ℕ} (hd : 0 < d) (hsmall : e * 2 ^ 53 < unitsOfRank rank * d)
    (hupper : 2 * n ≤ 2 * (unitsOfRank rank * d) + e)
    (hlower : 2 * (unitsOfRank rank * d) ≤ 2 * n + e) : nearestRank n d = rank := by
  have hgap : ∀ rank, unitsOfRank (rank + 1) * d + unitsOfRank rank * d * 2 ^ 53 ≤
      unitsOfRank (rank + 1) * d * 2 ^ 53 := fun rank => by
    have hscaled := Nat.mul_le_mul_right d (unitsOfRank_gap rank)
    rwa [Nat.add_mul, Nat.mul_right_comm, Nat.mul_right_comm _ _ d] at hscaled
  refine Nat.le_antisymm ((nearestRank_le_iff hd).mpr (.inl ?_)) ?_
  · have hnext := hgap rank
    have hgrowth := Nat.mul_lt_mul_of_pos_right (unitsOfRank_lt_succ rank) hd
    rw [Nat.add_mul]
    omega
  · cases rank with
    | zero => exact Nat.zero_le _
    | succ pred =>
        have hprev := hgap pred
        refine Nat.succ_le_of_lt (not_le.mp fun hle => ?_)
        rw [nearestRank_le_iff hd, Nat.add_mul] at hle
        omega

end VisitGraph.Numeric.Binary64
