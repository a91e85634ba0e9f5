import Mathlib.Algebra.Order.Ring.Abs
import Mathlib.Tactic.FieldSimp
import Mathlib.Tactic.Linarith
import VisitGraph.Proofs.Numeric.Nearest

/-! # The nearest integer

A rounded quotient is the integer nearest to the exact one, and the even one of two that are equally
near. Every number has only one such integer, and a larger number has no smaller one. -/

namespace VisitGraph.Numeric

/-- The integer is nearest to the number, and even if another integer is equally near. -/
structure IsRounded (q : ℚ) (k : ℤ) : Prop where
  near : |(k : ℚ) - q| ≤ 1 / 2
  even : |(k : ℚ) - q| = 1 / 2 → Even k

namespace IsRounded

variable {q r : ℚ} {k l : ℤ}

theorem mono (h : IsRounded q k) (h' : IsRounded r l) (hle : q ≤ r) : k ≤ l := by
  by_contra! hlt
  have hsucc : (l : ℚ) + 1 ≤ k := by exact_mod_cast hlt
  obtain ⟨-, hk⟩ := abs_le.mp h.near
  obtain ⟨hl, -⟩ := abs_le.mp h'.near
  -- there is room for this only if both numbers lie halfway between the two integers
  have hup : (k : ℚ) - q = 1 / 2 := by linarith
  have hdown : (l : ℚ) - r = -(1 / 2) := by linarith
  have hkeven : Even k := h.even (by rw [hup]; norm_num)
  have hleven : Even l := h'.even (by rw [hdown]; norm_num)
  have hnext : k = l + 1 := by
    have hcast : (k : ℚ) = l + 1 := by linarith
    exact_mod_cast hcast
  rw [Int.even_iff] at hkeven hleven
  omega

theorem unique (h : IsRounded q k) (h' : IsRounded q l) : k = l :=
  (h.mono h' le_rfl).antisymm (h'.mono h le_rfl)

end IsRounded

variable {n d : ℕ}

/-- A quotient halfway between two integers is rounded to the even one. -/
theorem roundDiv_mod_two_of_tie (hd : 0 < d)
    (h : 2 * n = 2 * (roundDiv n d * d) + d ∨ 2 * (roundDiv n d * d) = 2 * n + d) :
    roundDiv n d % 2 = 0 := by
  rcases h with hdown | hup
  · have hround := roundDiv_of_tie hd (q := roundDiv n d) (n := n)
      (by rw [hdown, Nat.add_mul, Nat.mul_assoc, Nat.one_mul])
    omega
  · obtain ⟨q, hq⟩ : ∃ q, roundDiv n d = q + 1 := by
      refine Nat.exists_eq_add_one.mpr (Nat.pos_of_ne_zero fun hzero => ?_)
      rw [hzero, Nat.zero_mul] at hup
      omega
    rw [hq, Nat.succ_mul q] at hup
    have hround := roundDiv_of_tie hd (q := q) (n := n)
      (by rw [Nat.add_mul, Nat.mul_assoc]; omega)
    omega

theorem isRounded_roundDiv (hd : 0 < d) (n : ℕ) : IsRounded (n / d) (roundDiv n d) := by
  have hd' : (0 : ℚ) < d := by exact_mod_cast hd
  have hdistance : |((roundDiv n d : ℤ) : ℚ) - n / d| = |(roundDiv n d * d : ℚ) - n| / d := by
    have hscaled : ((roundDiv n d : ℤ) : ℚ) - n / d = ((roundDiv n d * d : ℚ) - n) / d := by
      push_cast
      field_simp
    rw [hscaled, abs_div, abs_of_pos hd']
  have hupper : 2 * (roundDiv n d * d : ℚ) ≤ 2 * n + d := by
    exact_mod_cast two_mul_roundDiv_mul_le n d
  have hlower : (2 * n : ℚ) ≤ 2 * (roundDiv n d * d) + d := by
    exact_mod_cast le_two_mul_roundDiv_mul hd n
  constructor
  · rw [hdistance, div_le_iff₀ hd', abs_le]
    constructor <;> linarith
  · intro htie
    rw [hdistance, div_eq_iff hd'.ne'] at htie
    rw [Int.even_coe_nat, Nat.even_iff]
    refine roundDiv_mod_two_of_tie hd ?_
    rcases abs_choice ((roundDiv n d * d : ℚ) - n) with habs | habs
    · have hup : (2 * (roundDiv n d * d) : ℚ) = 2 * n + d := by linarith
      exact .inr (by exact_mod_cast hup)
    · have hdown : (2 * n : ℚ) = 2 * (roundDiv n d * d) + d := by linarith
      exact .inl (by exact_mod_cast hdown)

end VisitGraph.Numeric
