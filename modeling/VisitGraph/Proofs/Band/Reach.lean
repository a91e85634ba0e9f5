import VisitGraph.Proofs.Band.Grading

/-! # Reach of bands

What falls into a band is farther from the mean than the band reaches, whatever the roundings of the
threshold: the multiples of the spread are exact, and an integer beyond a rounded sum is beyond the
exact one. -/

namespace VisitGraph.Band

open Numeric Binary64

variable {i j : Fin rankCount} {n : ℤ} {b : Band}

theorem exists_reach_eq_pow (b : Band) : ∃ e, b.reach.natAbs = 2 ^ e := by
  cases b with
  | farHigh => exact ⟨1, rfl⟩
  | high => exact ⟨0, rfl⟩
  | farLow => exact ⟨1, rfl⟩
  | low => exact ⟨0, rfl⟩

/-- The distance from the mean at which a band begins is infinite or exact. -/
theorem distance_eq (b : Band) (j : Fin rankCount) :
    mul (ofInt b.reach.natAbs) (finite false j) = infinity false ∨
      ∃ k : Fin rankCount, mul (ofInt b.reach.natAbs) (finite false j) = finite false k ∧
        (unitsOfRank k : ℤ) = b.reach * unitsOfRank j := by
  have hreach : b.reach = b.reach.natAbs := by cases b <;> rfl
  obtain ⟨e, he⟩ := b.exists_reach_eq_pow
  have hle : b.reach.natAbs ≤ 2 ^ 53 := by cases b <;> decide
  have hexact := unitsOfRank_nearestRank_pow_mul e j
  rw [mul_ofInt_finite hle, hreach, he]
  by_cases hlt : nearestRank (2 ^ e * unitsOfRank j) 1 < rankCount
  · exact .inr ⟨_, ofUnits_eq_finite hlt false, by rw [hexact, Nat.cast_mul]⟩
  · exact .inl (dif_neg hlt)

/-- An integer beyond a threshold is beyond the exact one. -/
theorem reach_mul_lt_of_passes (hn : n.natAbs ≤ 2 ^ 53)
    (h : passes (fun b => .real (roundedLimit (finite false i)
      (fun factor => mul (ofInt factor) (finite false j)) b)) (.int n) b = true) :
    b.reach * (unitsOfRank j : ℤ) < |n * unitsPerOne - unitsOfRank i| := by
  have habs := abs_cases (n * unitsPerOne - unitsOfRank i : ℤ)
  rw [passes, roundedLimit] at h
  rcases b.distance_eq j with hdistance | ⟨k, hdistance, hk⟩
  · -- beyond an infinite threshold there is nothing
    rw [hdistance] at h
    cases habove : b.isAbove with
    | true =>
        rw [habove, if_pos rfl, if_pos rfl] at h
        cases h
    | false =>
        rw [habove, if_neg Bool.false_ne_true, if_neg Bool.false_ne_true] at h
        cases h
  · rw [hdistance] at h
    cases habove : b.isAbove with
    | true =>
        rw [habove, if_pos rfl, if_pos rfl] at h
        have hlt := add_lt_of_lt_int hn h
        rw [signedUnits, signedUnits, if_neg Bool.false_ne_true, if_neg Bool.false_ne_true] at hlt
        omega
    | false =>
        rw [habove, if_neg Bool.false_ne_true, if_neg Bool.false_ne_true, neg, Bool.not_false] at h
        have hlt := lt_add_of_int_lt hn h
        rw [signedUnits, signedUnits, if_neg Bool.false_ne_true, if_pos rfl] at hlt
        omega

theorem reach_mul_lt_of_classify (hn : n.natAbs ≤ 2 ^ 53)
    (h : classify (.int n) (.real (finite false i)) (.real (finite false j)) = .ok (some b)) :
    b.reach * (unitsOfRank j : ℤ) < |n * unitsPerOne - unitsOfRank i| := by
  have hspread : (Quantity.int 0).le (.real (finite false j)) = true :=
    zero_le_of_key (key?_finite false j) (Int.natCast_nonneg _)
  rw [(thresholds_rounded rfl hspread).classify_eq, Except.ok.injEq] at h
  exact reach_mul_lt_of_passes hn (List.find?_some h)

end VisitGraph.Band
