import VisitGraph.Proofs.Numeric.Digits
import VisitGraph.Proofs.Numeric.Interval

/-! # The shortest decimal number

The search for the shortest decimal number tries those next to a magnitude, and takes one only if it
is rounded to the magnitude. Should it find none with up to seventeen digits, the nearest one with
seventeen is taken: it is off by less than one part in two to the 54th, so it is rounded to the
magnitude as well. -/

namespace VisitGraph.Numeric

namespace Decimal

variable {d : Decimal} {units rank count a b : ℕ}

/-- The magnitude nearest to the number has the rank. -/
def HasRank (d : Decimal) (rank : ℕ) : Prop :=
  Binary64.nearestRank (d.ratio.1 * unitsPerOne) d.ratio.2 = rank

theorem scaled_eq (units : ℕ) (e : ℤ) :
    scaled units e = (units * 10 ^ (-e).toNat, unitsPerOne * 10 ^ e.toNat) := rfl

/-! ## Seventeen digits -/

/-- A magnitude reaches the power of ten of its leading digit. -/
theorem pow_leadingExponent_le (hunits : 0 < units) (h : (a : ℤ) - b = leadingExponent units) :
    unitsPerOne * 10 ^ a ≤ units * 10 ^ b := by
  rw [leadingExponent] at h
  split at h
  · rename_i hone
    obtain ⟨k, hk⟩ := Nat.exists_eq_add_one.mpr (length_digits_pos (units / unitsPerOne))
    obtain rfl : a = b + k := by omega
    have hpow : 10 ^ k ≤ units / unitsPerOne := by
      rcases Nat.eq_zero_or_pos k with rfl | hpos
      · rwa [Nat.pow_zero, Nat.one_le_div_iff unitsPerOne_pos]
      · have hlength := length_digits_le_iff (n := units / unitsPerOne) hpos
        omega
    rw [Nat.le_div_iff_mul_le unitsPerOne_pos, Nat.mul_comm] at hpow
    calc unitsPerOne * 10 ^ (b + k) = unitsPerOne * 10 ^ k * 10 ^ b := by ring
      _ ≤ units * 10 ^ b := Nat.mul_le_mul_right _ hpow
  · generalize hk : (digits ((unitsPerOne - 1) / units)).length = k at h
    obtain rfl : b = a + k := by omega
    have hpos : 0 < k := hk ▸ length_digits_pos _
    have hpow := (length_digits_le_iff hpos).mp hk.le
    rw [Nat.div_lt_iff_lt_mul hunits] at hpow
    have hone := unitsPerOne_pos
    calc unitsPerOne * 10 ^ a ≤ 10 ^ k * units * 10 ^ a := Nat.mul_le_mul_right _ (by omega)
      _ = units * 10 ^ (a + k) := by ring

/-- Seventeen digits are enough. -/
theorem hasRank_significant (hunits : 0 < Binary64.unitsOfRank rank) :
    (significant 17 (Binary64.unitsOfRank rank)).HasRank rank := by
  obtain ⟨e, he⟩ : ∃ e, leadingExponent (Binary64.unitsOfRank rank) - (17 - 1 : ℕ) = e := ⟨_, rfl⟩
  have hreach := pow_leadingExponent_le hunits (a := e.toNat + 16) (b := (-e).toNat) (by omega)
  have hspacing : 0 < unitsPerOne * 10 ^ e.toNat :=
    Nat.mul_pos unitsPerOne_pos (Nat.pow_pos (by decide))
  rw [Nat.pow_add, ← Nat.mul_assoc] at hreach
  rw [HasRank, significant, he, scaled_eq, ratio_eq]
  dsimp only
  rw [Nat.mul_assoc, Nat.mul_comm _ unitsPerOne]
  generalize unitsPerOne * 10 ^ e.toNat = spacing at hreach hspacing ⊢
  exact Binary64.nearestRank_eq_of_near (Nat.pow_pos (by decide)) (by omega)
    (two_mul_roundDiv_mul_le _ spacing) (le_two_mul_roundDiv_mul hspacing _)

/-! ## The search -/

theorem hasRank_of_neighbour? (h : neighbour? rank count = some d) : d.HasRank rank := by
  have hfound := List.find?_some h
  exact beq_iff_eq.mp hfound

/-- What the search ends with is rounded to the magnitude. -/
theorem hasRank_shortest (rank : ℕ) : (shortest rank).HasRank rank := by
  rw [shortest]
  split
  · rename_i hzero
    rw [← Binary64.unitsOfRank_zero, Binary64.unitsOfRank_strictMono.injective.eq_iff] at hzero
    rw [hzero, HasRank, ratio_eq, Nat.zero_mul, Nat.zero_mul]
    exact Binary64.nearestRank_unitsOfRank 0
  · rename_i hunits
    cases hsearch : (List.range 17).findSome? fun count => neighbour? rank (count + 1) with
    | none => exact hasRank_significant (Nat.pos_of_ne_zero hunits)
    | some d =>
        obtain ⟨count, -, hfound⟩ := List.exists_of_findSome?_eq_some hsearch
        exact hasRank_of_neighbour? hfound

/-! ## The number of a rank -/

/-- A number that has the rank of a magnitude is rounded to the magnitude. -/
theorem HasRank.toBinary64_eq {rank : Fin rankCount} (h : d.HasRank rank) (negative : Bool) :
    d.toBinary64 negative = .finite negative rank := by
  have hlt : Binary64.nearestRank (d.ratio.1 * unitsPerOne) d.ratio.2 < rankCount := by
    rw [h]
    exact rank.isLt
  rw [toBinary64, Binary64.ofRatio, Binary64.ofUnits_eq_finite hlt]
  exact congrArg (Binary64.finite negative) (Fin.ext h)

end Decimal

end VisitGraph.Numeric
