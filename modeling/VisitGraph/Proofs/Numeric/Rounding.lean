import Mathlib.Algebra.Order.Ring.Nat
import Mathlib.Tactic.Ring
import VisitGraph.Numeric.Rounding

/-! # Rounded quotients

The rounded quotient is at most half a divisor away from the exact one, depends on the ratio alone,
and grows with it. -/

namespace VisitGraph.Numeric

variable {n n' d d' c k : ℕ}

theorem roundDiv_cases (n d : ℕ) :
    (roundDiv n d = n / d ∧ 2 * (n % d) ≤ d) ∨ (roundDiv n d = n / d + 1 ∧ d ≤ 2 * (n % d)) := by
  rw [roundDiv]
  by_cases hlow : 2 * (n % d) < d
  · rw [if_pos hlow]
    exact .inl ⟨rfl, hlow.le⟩
  · by_cases hhigh : d < 2 * (n % d)
    · rw [if_neg hlow, if_pos hhigh]
      exact .inr ⟨rfl, hhigh.le⟩
    · rw [if_neg hlow, if_neg hhigh]
      rcases Nat.mod_two_eq_zero_or_one (n / d) with heven | hodd
      · exact .inl ⟨by omega, by omega⟩
      · exact .inr ⟨by omega, by omega⟩

theorem div_le_roundDiv (n d : ℕ) : n / d ≤ roundDiv n d := by
  rcases roundDiv_cases n d with ⟨h, -⟩ | ⟨h, -⟩ <;> omega

theorem roundDiv_le (n d : ℕ) : roundDiv n d ≤ n / d + 1 := by
  rcases roundDiv_cases n d with ⟨h, -⟩ | ⟨h, -⟩ <;> omega

/-- The rounded quotient is at most half a divisor too large … -/
theorem two_mul_roundDiv_mul_le (n d : ℕ) : 2 * (roundDiv n d * d) ≤ 2 * n + d := by
  have hdiv := Nat.div_add_mod' n d
  rcases roundDiv_cases n d with ⟨h, -⟩ | ⟨h, hhigh⟩
  · rw [h]
    omega
  · rw [h, Nat.succ_mul (n / d)]
    omega

/-- … and at most half a divisor too small. -/
theorem le_two_mul_roundDiv_mul (hd : 0 < d) (n : ℕ) : 2 * n ≤ 2 * (roundDiv n d * d) + d := by
  have hdiv := Nat.div_add_mod' n d
  have hmod := Nat.mod_lt n hd
  rcases roundDiv_cases n d with ⟨h, hlow⟩ | ⟨h, -⟩
  · rw [h]
    omega
  · rw [h, Nat.succ_mul (n / d)]
    omega

theorem roundDiv_mul_self (hd : 0 < d) (k : ℕ) : roundDiv (k * d) d = k := by
  rw [roundDiv, Nat.mul_div_cancel k hd, Nat.mul_mod_left]
  exact if_pos hd

/-- A quotient that is less than half away from an integer is rounded to it. -/
theorem roundDiv_eq_of_near (hlower : 2 * (k * d) < 2 * n + d) (hupper : 2 * n < 2 * (k * d) + d) :
    roundDiv n d = k := by
  have hd : 0 < d := by omega
  have hle := two_mul_roundDiv_mul_le n d
  have hge := le_two_mul_roundDiv_mul hd n
  have hlt : roundDiv n d * d < (k + 1) * d := by
    rw [Nat.succ_mul]
    omega
  have hgt : k * d < (roundDiv n d + 1) * d := by
    rw [Nat.succ_mul (roundDiv n d)]
    omega
  have := Nat.lt_of_mul_lt_mul_right hlt
  have := Nat.lt_of_mul_lt_mul_right hgt
  omega

/-- The rounded quotient depends on the ratio alone. -/
theorem roundDiv_mul_right (hc : 0 < c) (n d : ℕ) : roundDiv (n * c) (d * c) = roundDiv n d := by
  have hlow : 2 * (n % d * c) < d * c ↔ 2 * (n % d) < d := by
    rw [← Nat.mul_assoc, Nat.mul_lt_mul_right hc]
  have hhigh : d * c < 2 * (n % d * c) ↔ d < 2 * (n % d) := by
    rw [← Nat.mul_assoc, Nat.mul_lt_mul_right hc]
  simp only [roundDiv, Nat.mul_div_mul_right n d hc, Nat.mul_mod_mul_right, hlow, hhigh]

theorem roundDiv_le_roundDiv (h : n ≤ n') (d : ℕ) : roundDiv n d ≤ roundDiv n' d := by
  rcases Nat.lt_or_ge (n / d) (n' / d) with hlt | hge
  · calc roundDiv n d ≤ n / d + 1 := roundDiv_le n d
      _ ≤ n' / d := hlt
      _ ≤ roundDiv n' d := div_le_roundDiv n' d
  · have hquotient : n / d = n' / d := (Nat.div_le_div_right h).antisymm hge
    have hremainder : n % d ≤ n' % d := by
      have hn := Nat.div_add_mod' n d
      have hn' := Nat.div_add_mod' n' d
      rw [hquotient] at hn
      omega
    -- the same quotient: the larger remainder is rounded up if the smaller one is
    simp only [roundDiv, hquotient]
    split_ifs <;> omega

/-- A larger ratio has no smaller rounded quotient. -/
theorem roundDiv_mono (hd : 0 < d) (hd' : 0 < d') (h : n * d' ≤ n' * d) :
    roundDiv n d ≤ roundDiv n' d' := by
  calc roundDiv n d = roundDiv (n * d') (d * d') := (roundDiv_mul_right hd' n d).symm
    _ ≤ roundDiv (n' * d) (d * d') := roundDiv_le_roundDiv h _
    _ = roundDiv (n' * d) (d' * d) := by rw [Nat.mul_comm d d']
    _ = roundDiv n' d' := roundDiv_mul_right hd n' d'

end VisitGraph.Numeric
