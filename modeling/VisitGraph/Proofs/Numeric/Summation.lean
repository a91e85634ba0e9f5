import Mathlib.Algebra.BigOperators.Ring.Finset
import Mathlib.Algebra.Order.BigOperators.Group.List
import Mathlib.Data.List.Forall2
import VisitGraph.Proofs.Numeric.Share
import VisitGraph.Spread

/-! # Sums of shares

As long as sums stay below two, an addition is rounded by at most half of the spacing between one
and two. The shares of a whole are off by at most as much all together, so their sum from left to
right is off by at most that much for each of them. -/

namespace VisitGraph.Numeric.Binary64

/-- The number is finite, with so many units and no minus. -/
def HasUnits (x : Binary64) (units : ℕ) : Prop :=
  ∃ rank : Fin rankCount, x = finite false rank ∧ unitsOfRank rank = units

variable {x y : Binary64} {xs : List Binary64} {u v d count total : ℕ} {us counts : List ℕ}

theorem HasUnits.value?_eq (h : HasUnits x u) : x.value? = some (u / unitsPerOne : ℚ) := by
  obtain ⟨rank, rfl, rfl⟩ := h
  rfl

theorem hasUnits_ofUnits (h : nearestRank u d < rankCount) :
    HasUnits (ofUnits false u d) (unitsOfRank (nearestRank u d)) :=
  ⟨_, ofUnits_eq_finite h false, rfl⟩

theorem HasUnits.nearestRank_lt (h : HasUnits x u) : nearestRank u 1 < rankCount := by
  obtain ⟨rank, -, rfl⟩ := h
  rw [nearestRank_unitsOfRank]
  exact rank.isLt

theorem HasUnits.eq_ofUnits (h : HasUnits x u) : x = ofUnits false u 1 := by
  obtain ⟨rank, rfl, rfl⟩ := h
  rw [ofUnits_eq_finite (HasUnits.nearestRank_lt ⟨rank, rfl, rfl⟩)]
  exact congrArg (finite false) (Fin.ext (nearestRank_unitsOfRank rank).symm)

theorem hasUnits_zero : HasUnits ((0 : ℕ) : Binary64) 0 := by
  obtain ⟨rank, hrank⟩ := exists_holds_ofInt (n := 0) (by decide)
  refine ⟨rank, ?_, by rw [hrank.units, Int.natAbs_zero, Nat.zero_mul]⟩
  rw [natCast_eq_ofInt, Nat.cast_zero, hrank.eq_finite]
  rfl

/-! ## Sums below two -/

/-- A sum of magnitudes is rounded once. -/
theorem HasUnits.add_eq (hx : HasUnits x u) (hy : HasUnits y v) :
    x + y = ofUnits false (u + v) 1 := by
  obtain ⟨i, rfl, rfl⟩ := hx
  obtain ⟨j, rfl, rfl⟩ := hy
  have hsum : signedUnits false i + signedUnits false j = (unitsOfRank i + unitsOfRank j : ℕ) :=
    (Nat.cast_add _ _).symm
  rw [add_def, add, hsum]
  generalize unitsOfRank i + unitsOfRank j = units
  cases units with
  | zero => rw [Nat.cast_zero, if_pos rfl, Bool.false_and, zero]
  | succ units => rw [if_neg (by omega), decide_eq_false (by omega), Int.natAbs_natCast]

theorem HasUnits.zero_add (h : HasUnits x u) : ((0 : ℕ) : Binary64) + x = x := by
  rw [hasUnits_zero.add_eq h, Nat.zero_add, ← h.eq_ofUnits]

/-- Between one and two, half of the spacing is the whole one below. -/
theorem HasUnits.exists_add (hx : HasUnits x u) (hy : HasUnits y v) (h : u + v < 2 * unitsPerOne) :
    ∃ w, HasUnits (x + y) w ∧ w ≤ u + v + spacingBelowOne ∧ u + v ≤ w + spacingBelowOne := by
  have hspacing : 1 * 2 ^ (fractionDigits - 52) = 2 * spacingBelowOne := by
    have hexp : fractionDigits - 52 = (fractionDigits - 53) + 1 := by decide
    rw [spacingBelowOne, hexp, Nat.pow_succ', Nat.one_mul]
  have hlt : nearestRank (u + v) 1 < rankCount :=
    nearestRank_lt_rankCount Nat.one_pos (e := 1) (by decide) (by omega)
  have hbound : u + v < 1 * 2 ^ (fractionDigits - 52) * 2 ^ 53 := by
    rwa [hspacing, Nat.mul_assoc, ← unitsPerOne_eq_mul_spacing]
  obtain ⟨hupper, hlower⟩ := error_nearestRank_of_lt Nat.one_pos hbound
  rw [hspacing] at hupper hlower
  rw [hx.add_eq hy]
  exact ⟨_, hasUnits_ofUnits hlt, by omega, by omega⟩

/-- Each addition moves the sum by at most half of the spacing between one and two. -/
theorem HasUnits.exists_foldl_add (hxs : List.Forall₂ HasUnits xs us) (hx : HasUnits x u)
    (h : u + us.sum + us.length * spacingBelowOne < 2 * unitsPerOne + spacingBelowOne) :
    ∃ w, HasUnits (xs.foldl (· + ·) x) w ∧
      w ≤ u + us.sum + us.length * spacingBelowOne ∧
      u + us.sum ≤ w + us.length * spacingBelowOne := by
  induction hxs generalizing x u with
  | nil => exact ⟨u, hx, by simp, by simp⟩
  | cons hy _ ih =>
      rw [List.sum_cons, List.length_cons, Nat.succ_mul] at h
      obtain ⟨w, hw, hupper, hlower⟩ := hx.exists_add hy (by omega)
      obtain ⟨w', hw', hupper', hlower'⟩ := ih hw (by omega)
      rw [List.foldl_cons, List.sum_cons, List.length_cons, Nat.succ_mul]
      exact ⟨w', hw', by omega, by omega⟩

/-! ## The shares of a whole -/

/-- Counts of at least one each add up to a total. -/
structure Parts (counts : List ℕ) (total : ℕ) : Prop where
  one_le : ∀ count ∈ counts, 1 ≤ count
  sum_eq : counts.sum = total
  pos : 0 < total

theorem Parts.le (h : Parts counts total) (hcount : count ∈ counts) : count ≤ total :=
  h.sum_eq ▸ List.single_le_sum (by simp) count hcount

theorem Parts.length_le (h : Parts counts total) : counts.length ≤ total :=
  h.sum_eq ▸ List.length_le_sum_of_one_le counts h.one_le

theorem Parts.ne_nil (h : Parts counts total) : counts ≠ [] := by
  rintro rfl
  exact h.pos.ne h.sum_eq

/-- A part is one less than the total, or smaller still, for each of the others. -/
theorem Parts.add_length_le (h : Parts counts total) (hcount : count ∈ counts) :
    count + counts.length ≤ total + 1 := by
  obtain ⟨before, after, rfl⟩ := List.append_of_mem hcount
  have hone := h.one_le
  simp only [List.forall_mem_append, List.forall_mem_cons] at hone
  have hbefore := List.length_le_sum_of_one_le before hone.1
  have hafter := List.length_le_sum_of_one_le after hone.2.2
  rw [← h.sum_eq, List.sum_append, List.sum_cons, List.length_append, List.length_cons]
  omega

/-- Only a single part is the whole. -/
theorem Parts.div_eq_one_iff (h : Parts counts total) (hcount : count ∈ counts) :
    (count / total : ℚ) = 1 ↔ counts.length = 1 := by
  have htotal : (total : ℚ) ≠ 0 := Nat.cast_ne_zero.mpr h.pos.ne'
  rw [div_eq_one_iff_eq htotal, Nat.cast_inj]
  constructor
  · rintro rfl
    have hlength := h.add_length_le hcount
    have hpos := List.length_pos_of_mem hcount
    omega
  · intro hlength
    obtain ⟨count', rfl⟩ := List.length_eq_one_iff.mp hlength
    rw [List.mem_singleton.mp hcount, ← h.sum_eq, List.sum_singleton]

/-- Exactly, the shares of a whole add up to one. -/
theorem Parts.sum_div (h : Parts counts total) :
    (counts.map fun count : ℕ => (count / total : ℚ)).sum = 1 := by
  have htotal : (total : ℚ) ≠ 0 := Nat.cast_ne_zero.mpr h.pos.ne'
  simp only [div_eq_mul_inv]
  rw [List.sum_map_mul_right, ← Nat.cast_list_sum, h.sum_eq, mul_inv_cancel₀ htotal]

/-- The units of the rounded shares. -/
def shareUnits (counts : List ℕ) (total : ℕ) : List ℕ :=
  counts.map fun count => unitsOfRank (shareRank count total)

theorem Parts.hasUnits (h : Parts counts total) :
    List.Forall₂ HasUnits (counts.map (ofRatio false · total)) (shareUnits counts total) := by
  rw [shareUnits, List.forall₂_map_left_iff, List.forall₂_map_right_iff, List.forall₂_same]
  exact fun count hcount =>
    ⟨_, ofRatio_eq_finite h.pos (h.le hcount), rfl⟩

theorem relativeError_shareRank (hpos : 0 < total) (htotal : total ≤ 2 ^ 53) (hone : 1 ≤ count) :
    unitsOfRank (shareRank count total) * total * 2 ^ 53 ≤
        count * unitsPerOne * (2 ^ 53 + 1) ∧
      count * unitsPerOne * 2 ^ 53 ≤
        unitsOfRank (shareRank count total) * total * 2 ^ 53 + count * unitsPerOne := by
  have hunits : 2 ^ 105 ≤ unitsPerOne := by
    rw [unitsPerOne_eq]
    exact Nat.pow_le_pow_right (by decide) (by decide)
  refine relativeError_nearestRank hpos ?_
  calc total * 2 ^ 52 ≤ 2 ^ 105 := by omega
    _ ≤ unitsPerOne := hunits
    _ ≤ count * unitsPerOne := Nat.le_mul_of_pos_left _ hone

/-- All together, the shares are rounded by at most half of the spacing between one and two. -/
theorem Parts.sum_shareUnits (h : Parts counts total) (htotal : total ≤ 2 ^ 53) :
    (shareUnits counts total).sum ≤ unitsPerOne + spacingBelowOne ∧
      unitsPerOne ≤ (shareUnits counts total).sum + spacingBelowOne := by
  have hsum : ∀ counts : List ℕ, (∀ count ∈ counts, 1 ≤ count) →
      (shareUnits counts total).sum * total * 2 ^ 53 ≤
          counts.sum * unitsPerOne * (2 ^ 53 + 1) ∧
        counts.sum * unitsPerOne * 2 ^ 53 ≤
          (shareUnits counts total).sum * total * 2 ^ 53 + counts.sum * unitsPerOne := by
    intro counts hone
    induction counts with
    | nil => simp [shareUnits]
    | cons count counts ih =>
        obtain ⟨hcount, hcounts⟩ := List.forall_mem_cons.mp hone
        obtain ⟨hupper, hlower⟩ := relativeError_shareRank h.pos htotal hcount
        obtain ⟨hupper', hlower'⟩ := ih hcounts
        rw [shareUnits, List.map_cons, List.sum_cons, List.sum_cons, ← shareUnits]
        simp only [Nat.add_mul] at *
        omega
  obtain ⟨hupper, hlower⟩ := hsum counts h.one_le
  rw [h.sum_eq] at hupper hlower
  have hscale : 0 < total * 2 ^ 53 := Nat.mul_pos h.pos (Nat.two_pow_pos 53)
  have hspacing : total * unitsPerOne = spacingBelowOne * (total * 2 ^ 53) := by
    rw [unitsPerOne_eq_mul_spacing]
    ring
  constructor
  · refine Nat.le_of_mul_le_mul_right (c := total * 2 ^ 53) ?_ hscale
    calc (shareUnits counts total).sum * (total * 2 ^ 53)
        = (shareUnits counts total).sum * total * 2 ^ 53 := (Nat.mul_assoc _ _ _).symm
      _ ≤ total * unitsPerOne * (2 ^ 53 + 1) := hupper
      _ = unitsPerOne * (total * 2 ^ 53) + total * unitsPerOne := by ring
      _ = (unitsPerOne + spacingBelowOne) * (total * 2 ^ 53) := by rw [hspacing, Nat.add_mul]
  · refine Nat.le_of_mul_le_mul_right (c := total * 2 ^ 53) ?_ hscale
    calc unitsPerOne * (total * 2 ^ 53) = total * unitsPerOne * 2 ^ 53 := by ring
      _ ≤ (shareUnits counts total).sum * total * 2 ^ 53 + total * unitsPerOne := hlower
      _ = ((shareUnits counts total).sum + spacingBelowOne) * (total * 2 ^ 53) := by
          rw [hspacing, Nat.add_mul, Nat.mul_assoc]

/-- Summed from left to right, the shares of a whole miss one by at most half of the spacing
between one and two for each of them. -/
theorem Parts.exists_total (h : Parts counts total) (htotal : total ≤ 2 ^ 53) :
    ∃ w, HasUnits (Spread.total (counts.map (ofRatio false · total))) w ∧
      w ≤ unitsPerOne + counts.length * spacingBelowOne ∧
      unitsPerOne ≤ w + counts.length * spacingBelowOne := by
  obtain ⟨hupper, hlower⟩ := h.sum_shareUnits htotal
  have hlength := Nat.mul_le_mul_right spacingBelowOne (h.length_le.trans htotal)
  have hone := unitsPerOne_eq_mul_spacing
  have hspacing := spacingBelowOne_pos
  have hunits := h.hasUnits
  cases counts with
  | nil => exact absurd rfl h.ne_nil
  | cons count counts =>
      rw [shareUnits, List.map_cons, List.map_cons, ← shareUnits] at hunits
      rw [shareUnits, List.map_cons, List.sum_cons, ← shareUnits] at hupper hlower
      rw [List.length_cons, Nat.succ_mul] at hlength ⊢
      obtain ⟨hfirst, hrest⟩ := List.forall₂_cons.mp hunits
      have hcount : (shareUnits counts total).length = counts.length := List.length_map _
      -- the first addition, to zero, is exact, so that there is one fewer than there are shares
      rw [Spread.total, List.map_cons, List.foldl_cons, hfirst.zero_add]
      obtain ⟨w, hw, hupper', hlower'⟩ := hfirst.exists_foldl_add hrest (by rw [hcount]; omega)
      rw [hcount] at hupper' hlower'
      exact ⟨w, hw, by omega, by omega⟩

/-- The distance from one in terms of the spacing. -/
theorem abs_div_sub_one_le {w s k : ℕ} (hs : 0 < s) (hupper : w ≤ s * 2 ^ 53 + k * s)
    (hlower : s * 2 ^ 53 ≤ w + k * s) : |(w / (s * 2 ^ 53 : ℕ) : ℚ) - 1| ≤ k / 2 ^ 53 := by
  have hone : (0 : ℚ) < (s * 2 ^ 53 : ℕ) := Nat.cast_pos.mpr (Nat.mul_pos hs (Nat.two_pow_pos 53))
  have hdistance : |(w : ℚ) - (s * 2 ^ 53 : ℕ)| ≤ k * s := by
    rw [abs_sub_le_iff, sub_le_iff_le_add', sub_le_iff_le_add']
    exact ⟨by exact_mod_cast hupper, by exact_mod_cast hlower⟩
  calc |(w / (s * 2 ^ 53 : ℕ) : ℚ) - 1|
      = |(w : ℚ) - (s * 2 ^ 53 : ℕ)| / (s * 2 ^ 53 : ℕ) := by
        rw [div_sub_one hone.ne', abs_div, abs_of_pos hone]
    _ ≤ k * s / (s * 2 ^ 53 : ℕ) := div_le_div_of_nonneg_right hdistance hone.le
    _ = k / 2 ^ 53 := by
        have hs' : (s : ℚ) ≠ 0 := Nat.cast_ne_zero.mpr hs.ne'
        rw [Nat.cast_mul, Nat.cast_pow, Nat.cast_ofNat, mul_comm (k : ℚ), mul_div_mul_left _ _ hs']

theorem Parts.abs_total_sub_one_le (h : Parts counts total) (htotal : total ≤ 2 ^ 53) :
    ∃ value, (Spread.total (counts.map (ofRatio false · total))).value? = some value ∧
      |value - 1| ≤ counts.length / 2 ^ 53 := by
  obtain ⟨w, hw, hupper, hlower⟩ := h.exists_total htotal
  rw [unitsPerOne_eq_mul_spacing] at hupper hlower
  refine ⟨_, hw.value?_eq, ?_⟩
  rw [unitsPerOne_eq_mul_spacing]
  exact abs_div_sub_one_le spacingBelowOne_pos hupper hlower

end VisitGraph.Numeric.Binary64
