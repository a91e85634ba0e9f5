import Mathlib.Algebra.Order.Field.Basic
import Mathlib.Algebra.Order.Field.Rat
import VisitGraph.Proofs.Numeric.Whole

/-! # The nearest number

The rank of a ratio is the rank of the magnitude nearest to it, and the even one of two ranks whose
magnitudes are equally near. -/

namespace VisitGraph.Numeric

/-- Halfway between two whole multiples of the divisor, the quotient is rounded to the even one. -/
theorem roundDiv_of_tie {n d q : ℕ} (hd : 0 < d) (h : 2 * n = (2 * q + 1) * d) :
    roundDiv n d = q + q % 2 := by
  have hdiv := Nat.div_add_mod' n d
  have hmod := Nat.mod_lt n hd
  have hq : n / d = q := by
    rw [Nat.div_eq_iff hd]
    rw [Nat.add_mul, Nat.mul_assoc] at h
    omega
  rw [hq] at hdiv
  rw [Nat.add_mul, Nat.mul_assoc] at h
  rw [roundDiv, hq, if_neg (by omega), if_neg (by omega)]

namespace Binary64

variable {n d k rank shift : ℕ}

/-! ## Neighbouring magnitudes -/

/-- The next magnitude is at least one spacing away … -/
theorem succ_mul_le_unitsOfRank (h : shift = 0 ∨ 2 ^ 52 ≤ k) (hk : k ≤ 2 ^ 53) :
    (k + 1) * 2 ^ shift ≤ unitsOfRank (shift * 2 ^ 52 + k + 1) := by
  rcases hk.eq_or_lt with rfl | hlt
  · -- the next binade begins here, with twice the spacing
    have hnext : shift * 2 ^ 52 + 2 ^ 53 + 1 = (shift + 1) * 2 ^ 52 + (2 ^ 52 + 1) := by ring
    rw [hnext, unitsOfRank_mul_add (.inr (by omega)) (by omega), Nat.pow_succ]
    omega
  · rw [Nat.add_assoc, unitsOfRank_mul_add (h.imp id fun h => h.trans k.le_succ) hlt]

/-- … and the one before is one spacing away, unless it lies in another binade. -/
theorem unitsOfRank_eq_pred_mul (h : shift = 0 ∨ 2 ^ 52 < k) (hk : k ≤ 2 ^ 53)
    (hrank : rank + 1 = shift * 2 ^ 52 + k) (hpos : 0 < k) :
    unitsOfRank rank = (k - 1) * 2 ^ shift := by
  have hpred : rank = shift * 2 ^ 52 + (k - 1) := by omega
  rw [hpred, unitsOfRank_mul_add (h.imp id fun h => by omega) (by omega)]

/-! ## Nearest magnitudes -/

theorem unitsOfRank_nearestRank_mul_divisor (hd : 0 < d) (n : ℕ) :
    unitsOfRank (nearestRank n d) * d = countOf n d * (d * 2 ^ shiftOf n d) := by
  rw [unitsOfRank_nearestRank hd]
  ring

theorem nearestRank_mod_two (n d : ℕ) : nearestRank n d % 2 = countOf n d % 2 := by
  rw [nearestRank_eq]
  omega

/-- Halfway between two neighbouring magnitudes, the rank is even. -/
theorem nearestRank_mod_two_of_tie (hd : 0 < d)
    (h : 2 * n = 2 * (k * (d * 2 ^ shiftOf n d)) + d * 2 ^ shiftOf n d) :
    nearestRank n d % 2 = 0 := by
  have hround := roundDiv_of_tie (spacing_pos hd n) (q := k) (n := n)
    (by rw [Nat.add_mul, Nat.mul_assoc, Nat.one_mul, h])
  rw [← countOf] at hround
  rw [nearestRank_mod_two, hround]
  omega

/-- Any larger magnitude is at least as far from the ratio, and farther if the rank is odd. -/
theorem two_mul_le_of_nearestRank_lt (hd : 0 < d) (h : nearestRank n d < rank) :
    2 * n ≤ unitsOfRank (nearestRank n d) * d + unitsOfRank rank * d ∧
      (2 * n = unitsOfRank (nearestRank n d) * d + unitsOfRank rank * d →
        nearestRank n d % 2 = 0) := by
  have hnext : (countOf n d + 1) * (d * 2 ^ shiftOf n d) ≤ unitsOfRank rank * d := by
    calc (countOf n d + 1) * (d * 2 ^ shiftOf n d)
        = (countOf n d + 1) * 2 ^ shiftOf n d * d := by ring
      _ ≤ unitsOfRank (nearestRank n d + 1) * d :=
          Nat.mul_le_mul_right d (succ_mul_le_unitsOfRank (le_countOf hd n) (countOf_le hd n))
      _ ≤ unitsOfRank rank * d :=
          Nat.mul_le_mul_right d (unitsOfRank_strictMono.monotone h)
  have hlower := (error_nearestRank hd n).2
  rw [unitsOfRank_nearestRank_mul_divisor hd] at hlower ⊢
  rw [Nat.succ_mul] at hnext
  exact ⟨by omega, fun htie => nearestRank_mod_two_of_tie hd (k := countOf n d) (by omega)⟩

/-- Any smaller magnitude is at least as far from the ratio, and farther if the rank is odd. -/
theorem le_two_mul_of_lt_nearestRank (hd : 0 < d) (h : rank < nearestRank n d) :
    unitsOfRank rank * d + unitsOfRank (nearestRank n d) * d ≤ 2 * n ∧
      (unitsOfRank rank * d + unitsOfRank (nearestRank n d) * d = 2 * n →
        nearestRank n d % 2 = 0) := by
  obtain ⟨pred, hpred⟩ := Nat.exists_eq_add_one.mpr (Nat.zero_lt_of_lt h)
  have hupper := (error_nearestRank hd n).1
  have hcount := le_countOf hd n
  by_cases hedge : shiftOf n d = 0 ∨ 2 ^ 52 < countOf n d
  · have hpos : 0 < countOf n d := by
      rw [nearestRank_eq] at h
      omega
    have hprev : unitsOfRank rank * d ≤ (countOf n d - 1) * (d * 2 ^ shiftOf n d) := by
      calc unitsOfRank rank * d ≤ unitsOfRank pred * d :=
            Nat.mul_le_mul_right d (unitsOfRank_strictMono.monotone (by omega))
        _ = (countOf n d - 1) * 2 ^ shiftOf n d * d := by
            rw [unitsOfRank_eq_pred_mul hedge (countOf_le hd n) hpred.symm hpos]
        _ = (countOf n d - 1) * (d * 2 ^ shiftOf n d) := by ring
    obtain ⟨count, hsucc⟩ := Nat.exists_eq_add_one.mpr hpos
    rw [unitsOfRank_nearestRank_mul_divisor hd] at hupper ⊢
    rw [hsucc, Nat.add_sub_cancel] at hprev
    rw [hsucc, Nat.succ_mul count] at hupper ⊢
    exact ⟨by omega, fun htie => nearestRank_mod_two_of_tie hd (k := count) (by omega)⟩
  · -- where a binade begins, the ratio is not below the magnitude
    have hge := (isShift_shiftOf hd n).ge.resolve_left fun hzero => hedge (.inl hzero)
    have hlow : countOf n d = 2 ^ 52 := by omega
    have hstrict := Nat.mul_lt_mul_of_pos_right (unitsOfRank_strictMono h) hd
    rw [unitsOfRank_nearestRank_mul_divisor hd, hlow] at hstrict ⊢
    exact ⟨by omega, by omega⟩

/-! ## Nearest numbers -/

/-- The exact value of a finite number. -/
def value? : Binary64 → Option ℚ
  | finite negative rank => some (signedUnits negative rank / unitsPerOne)
  | nan | infinity _ => none

/-- The number is finite and its rank is even. -/
def IsEven : Binary64 → Prop
  | finite _ rank => rank.val % 2 = 0
  | nan | infinity _ => False

/-- No finite number is nearer, and one that is equally near but not equal is the odd one. -/
def IsNearest (q : ℚ) (x : Binary64) : Prop :=
  ∃ v, x.value? = some v ∧ ∀ y w, value? y = some w →
    |v - q| ≤ |w - q| ∧ (|v - q| = |w - q| → v = w ∨ x.IsEven)

theorem unitsOfRank_zero : unitsOfRank 0 = 0 := rfl

/-- No magnitude is nearer to a ratio than that of its rank. -/
theorem abs_units_sub_le (hd : 0 < d) (n rank : ℕ) :
    |(unitsOfRank (nearestRank n d) * d : ℤ) - n| ≤ |(unitsOfRank rank * d : ℤ) - n| ∧
      (|(unitsOfRank (nearestRank n d) * d : ℤ) - n| = |(unitsOfRank rank * d : ℤ) - n| →
        nearestRank n d = rank ∨ nearestRank n d % 2 = 0) := by
  have habs := abs_cases ((unitsOfRank (nearestRank n d) * d : ℤ) - n)
  have habs' := abs_cases ((unitsOfRank rank * d : ℤ) - n)
  rcases Nat.lt_trichotomy rank (nearestRank n d) with hlt | heq | hgt
  · obtain ⟨hle, htie⟩ := le_two_mul_of_lt_nearestRank hd hlt
    have hmul := Nat.mul_lt_mul_of_pos_right (unitsOfRank_strictMono hlt) hd
    exact ⟨by omega, fun heq => .inr (htie (by omega))⟩
  · rw [← heq]
    exact ⟨le_refl _, fun _ => .inl rfl⟩
  · obtain ⟨hle, htie⟩ := two_mul_le_of_nearestRank_lt hd hgt
    have hmul := Nat.mul_lt_mul_of_pos_right (unitsOfRank_strictMono hgt) hd
    exact ⟨by omega, fun heq => .inr (htie (by omega))⟩

/-- A number with a minus is no nearer than zero. -/
theorem abs_signedUnits_sub_le (hd : 0 < d) (n : ℕ) (negative : Bool) (rank : ℕ) :
    |(unitsOfRank (nearestRank n d) * d : ℤ) - n| ≤ |signedUnits negative rank * d - n| ∧
      (|(unitsOfRank (nearestRank n d) * d : ℤ) - n| = |signedUnits negative rank * d - n| →
        (unitsOfRank (nearestRank n d) : ℤ) = signedUnits negative rank ∨
          nearestRank n d % 2 = 0) := by
  cases negative with
  | false =>
      obtain ⟨hle, htie⟩ := abs_units_sub_le hd n rank
      exact ⟨hle, fun heq => (htie heq).imp (fun h => by rw [h]; rfl) id⟩
  | true =>
      obtain ⟨hle, htie⟩ := abs_units_sub_le hd n 0
      have hfar : |(unitsOfRank 0 * d : ℤ) - n| ≤ |signedUnits true rank * d - n| := by
        have hnonneg : (0 : ℤ) ≤ unitsOfRank rank * d :=
          mul_nonneg (Int.natCast_nonneg _) (Int.natCast_nonneg _)
        rw [signedUnits, if_pos rfl, unitsOfRank_zero, Int.natCast_zero, Int.zero_mul, Int.neg_mul,
          abs_of_nonpos (by omega), abs_of_nonpos (by omega)]
        omega
      refine ⟨hle.trans hfar, fun heq => .inr ?_⟩
      rcases htie (hle.antisymm (heq ▸ hfar)) with hzero | heven
      · rw [hzero]
      · exact heven

/-- The quotient is the nearest number. -/
theorem isNearest_ofRatio (hd : 0 < d) (h : nearestRank (n * unitsPerOne) d < rankCount) :
    IsNearest (n / d) (ofRatio false n d) := by
  have hone : (0 : ℚ) < unitsPerOne := by exact_mod_cast unitsPerOne_pos
  have hd' : (0 : ℚ) < d := by exact_mod_cast hd
  have hdistance : ∀ units : ℤ, |(units / unitsPerOne - n / d : ℚ)| =
      (|units * d - (n * unitsPerOne : ℕ)| : ℤ) / (unitsPerOne * d) := by
    intro units
    rw [div_sub_div _ _ hone.ne' hd'.ne', abs_div, abs_of_pos (mul_pos hone hd')]
    push_cast
    ring_nf
  have hscale : (0 : ℚ) < unitsPerOne * d := mul_pos hone hd'
  refine ⟨(unitsOfRank (nearestRank (n * unitsPerOne) d) : ℤ) / unitsPerOne, ?_, ?_⟩
  · rw [ofRatio, ofUnits_eq_finite h]
    rfl
  · rintro (_ | _ | ⟨negative, rank⟩) w hw
    · cases hw
    · cases hw
    · obtain rfl := Option.some.inj hw
      obtain ⟨hle, htie⟩ := abs_signedUnits_sub_le hd (n * unitsPerOne) negative rank
      rw [hdistance, hdistance, div_le_div_iff_of_pos_right hscale,
        div_left_inj' hscale.ne', Int.cast_le, Int.cast_inj]
      refine ⟨hle, fun heq => (htie heq).imp (fun h => by rw [h]) fun heven => ?_⟩
      rw [ofRatio, ofUnits_eq_finite h]
      exact heven

end Binary64

end VisitGraph.Numeric
