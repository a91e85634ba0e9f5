import Mathlib.Algebra.Order.Field.Rat
import Mathlib.Algebra.Order.Ring.Nat
import VisitGraph.Numeric.Decimal
import VisitGraph.Proofs.Numeric.Rank

/-! # Digits of decimal numbers

A factor of ten is a zero at the end of the digits, and no zero is written at the end. So the
written form of a decimal number depends on its value alone. -/

namespace VisitGraph.Numeric.Decimal

/-- The exact value of a decimal number. -/
def value (d : Decimal) : ℚ :=
  d.ratio.1 / d.ratio.2

theorem ratio_eq (d : Decimal) :
    d.ratio = (d.coefficient * 10 ^ d.exponent.toNat, 10 ^ (-d.exponent).toNat) := rfl

theorem ratio_snd_pos (d : Decimal) : 0 < d.ratio.2 :=
  Nat.pow_pos (by decide)

/-! ## Zeros at the end -/

theorem digits_mul_pow {c : ℕ} (hc : 0 < c) (j : ℕ) :
    digits (c * 10 ^ j) = digits c ++ List.replicate j '0' := by
  induction j with
  | zero => simp
  | succ j ih =>
      have hpos : 0 < c * 10 ^ j := Nat.mul_pos hc (Nat.pow_pos (by decide))
      have hnext : c * 10 ^ (j + 1) = 10 * (c * 10 ^ j) + 0 := by ring
      have hdigit := Nat.toDigits_append_toDigits (b := 10) (d := 0) (by decide) hpos (by decide)
      rw [hnext, digits, ← hdigit, ← digits, ih, Nat.toDigits_zero, List.append_assoc,
        ← List.replicate_succ']

theorem stripZeros_append_replicate (ds : List Char) (j : ℕ) :
    stripZeros (ds ++ List.replicate j '0') = stripZeros ds := by
  have hzeros : ∀ c ∈ (List.replicate j '0').reverse, (c == '0') = true := fun c hc => by
    rw [List.mem_reverse] at hc
    rw [List.eq_of_mem_replicate hc]
    rfl
  rw [stripZeros, stripZeros, List.reverse_append, List.dropWhile_append_of_pos hzeros]

/-- However many zeros the coefficient ends with, the number is written in the same way. -/
theorem text_mul_pow (style : Style) (c j : ℕ) (e : Int) :
    text style ⟨c * 10 ^ j, e - j⟩ = text style ⟨c, e⟩ := by
  have hpow : 10 ^ j ≠ 0 := (Nat.pow_pos (by decide)).ne'
  by_cases hc : c = 0
  · simp [text, hc]
  · have hexponent :
        e - (j : Int) + ((digits c).length + j : ℕ) - 1 = e + (digits c).length - 1 := by
      omega
    simp only [text, Nat.mul_eq_zero, hc, hpow, or_self, if_false,
      digits_mul_pow (Nat.pos_of_ne_zero hc), stripZeros_append_replicate, List.length_append,
      List.length_replicate, hexponent]

/-! ## The leading digit -/

variable {units a b : ℕ}

theorem length_digits_pos (n : ℕ) : 0 < (digits n).length :=
  Nat.length_toDigits_pos

theorem pos_of_one_lt_pow {k : ℕ} (h : 1 < 10 ^ k) : 0 < k := by
  refine Nat.pos_of_ne_zero ?_
  rintro rfl
  exact absurd h (by decide)

theorem length_digits_le_iff {n k : ℕ} (hk : 0 < k) : (digits n).length ≤ k ↔ n < 10 ^ k :=
  Nat.length_toDigits_le_iff (by decide) hk

/-- A magnitude has its leading digit before that of any larger power of ten … -/
theorem leadingExponent_lt (h : units < unitsPerOne * 10 ^ b) : leadingExponent units < b := by
  rw [leadingExponent]
  split
  · rename_i hone
    have hpow : 1 < 10 ^ b := (Nat.lt_mul_iff_one_lt_right unitsPerOne_pos).mp (hone.trans_lt h)
    have hb : 0 < b := pos_of_one_lt_pow hpow
    have hlength : (digits (units / unitsPerOne)).length ≤ b := by
      rw [length_digits_le_iff hb, Nat.div_lt_iff_lt_mul unitsPerOne_pos, Nat.mul_comm]
      exact h
    omega
  · have hlength := length_digits_pos ((unitsPerOne - 1) / units)
    omega

/-- … and not behind that of a power of ten that it reaches. -/
theorem le_leadingExponent (h : unitsPerOne ≤ units * 10 ^ a) :
    -(a : Int) ≤ leadingExponent units := by
  rw [leadingExponent]
  split
  · have hlength := length_digits_pos (units / unitsPerOne)
    omega
  · rename_i hone
    have hunits : 0 < units := by
      refine Nat.pos_of_ne_zero fun hzero => ?_
      rw [hzero, Nat.zero_mul] at h
      exact absurd unitsPerOne_pos (by omega)
    have hpow : 1 < 10 ^ a :=
      (Nat.lt_mul_iff_one_lt_right hunits).mp ((Nat.lt_of_not_le hone).trans_le h)
    have ha : 0 < a := pos_of_one_lt_pow hpow
    have hlength : (digits ((unitsPerOne - 1) / units)).length ≤ a := by
      rw [length_digits_le_iff ha, Nat.div_lt_iff_lt_mul hunits, Nat.mul_comm]
      have hone := unitsPerOne_pos
      omega
    omega

end VisitGraph.Numeric.Decimal
