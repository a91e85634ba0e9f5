import VisitGraph.Proofs.Numeric.Nearest

/-! # Numbers with the other sign

A change of the sign changes nothing but the sign of the value, so what is nearest to a quotient is,
with the other sign, nearest to its negative. -/

namespace VisitGraph.Numeric.Binary64

variable {x : Binary64} {q : ℚ} {n d : ℕ}

theorem signedUnits_not (negative : Bool) (rank : ℕ) :
    signedUnits (!negative) rank = -signedUnits negative rank := by
  rw [signedUnits, signedUnits]
  cases negative with
  | false => rw [Bool.not_false, if_pos rfl, if_neg Bool.false_ne_true]
  | true => rw [Bool.not_true, if_pos rfl, if_neg Bool.false_ne_true, Int.neg_neg]

theorem value?_neg (x : Binary64) : (neg x).value? = x.value?.map (- ·) := by
  cases x with
  | nan => rfl
  | infinity negative => rfl
  | finite negative rank =>
      rw [neg, value?, signedUnits_not, Int.cast_neg, neg_div]
      rfl

theorem isEven_neg (x : Binary64) : (neg x).IsEven ↔ x.IsEven := by
  cases x <;> rfl

/-- With the other sign, the nearest number is the nearest one to the negative. -/
theorem IsNearest.neg (h : IsNearest q x) : IsNearest (-q) (neg x) := by
  obtain ⟨v, hv, hnearest⟩ := h
  have hflip : ∀ w : ℚ, |w - -q| = |-w - q| := fun w => by
    rw [← abs_neg, neg_sub, neg_sub_comm]
  refine ⟨-v, by rw [value?_neg, hv, Option.map_some], fun y w hw => ?_⟩
  obtain ⟨hle, htie⟩ := hnearest (Binary64.neg y) (-w) (by rw [value?_neg, hw, Option.map_some])
  rw [hflip, hflip, neg_neg]
  exact ⟨hle, fun heq => (htie heq).imp (fun hw => by rw [hw, neg_neg]) (isEven_neg x).mpr⟩

theorem neg_ofUnits (negative : Bool) (n d : ℕ) :
    neg (ofUnits negative n d) = ofUnits (!negative) n d := by
  simp only [ofUnits]
  split <;> rfl

/-- A quotient of integers is the nearest number. -/
theorem isNearest_ofRatio_int {m : ℤ} (hd : 0 < d) (hm : m.natAbs ≤ 2 ^ 53) :
    IsNearest (m / d) (ofRatio (m < 0) m.natAbs d) := by
  have hnearest := isNearest_ofRatio hd (nearestRank_ratio_lt hd hm)
  have hcast : (m.natAbs : ℚ) = |(m : ℚ)| := by rw [Nat.cast_natAbs, Int.cast_abs]
  rcases lt_or_ge m 0 with hneg | hpos
  · rw [hcast, abs_of_neg (Int.cast_lt_zero.mpr hneg), neg_div] at hnearest
    have hflipped := hnearest.neg
    rwa [neg_neg, ofRatio, neg_ofUnits, Bool.not_false, ← ofRatio,
      ← decide_eq_true hneg] at hflipped
  · rw [hcast, abs_of_nonneg (Int.cast_nonneg hpos)] at hnearest
    rwa [decide_eq_false hpos.not_gt]

end VisitGraph.Numeric.Binary64
