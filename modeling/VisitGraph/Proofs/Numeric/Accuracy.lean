import Mathlib.Algebra.Order.Ring.Pow
import Mathlib.Tactic.Linarith
import VisitGraph.Proofs.Numeric.Summation

/-! # Accuracy of operations

A rounding is off by at most a fixed part of the result, or, where the spacing no longer shrinks, by
half a unit. A sum is a whole number of units, so that nothing is lost there and a long sum keeps
its relative accuracy, however small it is. -/

namespace VisitGraph.Numeric.Binary64

variable {x y : Binary64} {xs : List Binary64} {u v n d k : ℕ} {us : List ℕ}

/-- The largest relative error of a rounding. -/
def roundoff : ℚ := 1 / 2 ^ 53

/-! ## One rounding -/

theorem two_pow_le_unitsPerOne : (2 : ℚ) ^ 100 ≤ unitsPerOne := by
  rw [unitsPerOne_eq]
  exact_mod_cast Nat.pow_le_pow_right Nat.two_pos (by decide)

/-- The error is at most half a unit and one part in two to the 53rd. -/
theorem error_nearestRank_add (hd : 0 < d) (n : ℕ) :
    unitsOfRank (nearestRank n d) * d * 2 ^ 53 ≤ n * (2 ^ 53 + 1) + d * 2 ^ 52 ∧
      n * 2 ^ 53 ≤ unitsOfRank (nearestRank n d) * d * 2 ^ 53 + n + d * 2 ^ 52 := by
  rcases (isShift_shiftOf hd n).ge with hzero | hge
  · obtain ⟨hupper, hlower⟩ := error_nearestRank hd n
    rw [hzero, Nat.pow_zero, Nat.mul_one] at hupper hlower
    omega
  · have hlarge : d * 2 ^ 52 ≤ n := by
      refine (Nat.mul_le_mul_right _ ?_).trans hge
      exact Nat.le_mul_of_pos_right d (Nat.two_pow_pos _)
    obtain ⟨hupper, hlower⟩ := relativeError_nearestRank hd hlarge
    omega

/-- Whole numbers of units are rounded without underflow. -/
theorem relativeError_nearestRank_one (n : ℕ) :
    unitsOfRank (nearestRank n 1) * 2 ^ 53 ≤ n * (2 ^ 53 + 1) ∧
      n * 2 ^ 53 ≤ unitsOfRank (nearestRank n 1) * 2 ^ 53 + n := by
  rcases (isShift_shiftOf Nat.one_pos n).ge with hzero | hge
  · obtain ⟨hupper, hlower⟩ := error_nearestRank Nat.one_pos n
    rw [hzero] at hupper hlower
    omega
  · have hlarge : 1 * 2 ^ 52 ≤ n := by
      refine (Nat.mul_le_mul_right _ ?_).trans hge
      exact Nat.le_mul_of_pos_right 1 (Nat.two_pow_pos _)
    have herror := relativeError_nearestRank Nat.one_pos hlarge
    rwa [Nat.mul_one] at herror

theorem units_nearestRank_le (hd : 0 < d) (n : ℕ) :
    (unitsOfRank (nearestRank n d) : ℚ) ≤ n / d * (1 + roundoff) + 1 / 2 := by
  have hd' : (0 : ℚ) < d := Nat.cast_pos.mpr hd
  have hupper : (unitsOfRank (nearestRank n d) * d * 2 ^ 53 : ℚ) ≤
      n * (2 ^ 53 + 1) + d * 2 ^ 52 := by
    exact_mod_cast (error_nearestRank_add hd n).1
  rw [← mul_le_mul_iff_of_pos_right hd', add_mul, mul_right_comm, div_mul_cancel₀ _ hd'.ne',
    roundoff]
  linarith

theorem le_units_nearestRank (hd : 0 < d) (n : ℕ) :
    n / d * (1 - roundoff) - 1 / 2 ≤ (unitsOfRank (nearestRank n d) : ℚ) := by
  have hd' : (0 : ℚ) < d := Nat.cast_pos.mpr hd
  have hlower : (n * 2 ^ 53 : ℚ) ≤
      unitsOfRank (nearestRank n d) * d * 2 ^ 53 + n + d * 2 ^ 52 := by
    exact_mod_cast (error_nearestRank_add hd n).2
  rw [← mul_le_mul_iff_of_pos_right hd', sub_mul, mul_right_comm, div_mul_cancel₀ _ hd'.ne',
    roundoff]
  linarith

theorem units_nearestRank_one_le (n : ℕ) :
    (unitsOfRank (nearestRank n 1) : ℚ) ≤ n * (1 + roundoff) := by
  have hupper : (unitsOfRank (nearestRank n 1) * 2 ^ 53 : ℚ) ≤ n * (2 ^ 53 + 1) := by
    exact_mod_cast (relativeError_nearestRank_one n).1
  rw [roundoff]
  linarith

theorem le_units_nearestRank_one (n : ℕ) :
    n * (1 - roundoff) ≤ (unitsOfRank (nearestRank n 1) : ℚ) := by
  have hlower : (n * 2 ^ 53 : ℚ) ≤ unitsOfRank (nearestRank n 1) * 2 ^ 53 + n := by
    exact_mod_cast (relativeError_nearestRank_one n).2
  rw [roundoff]
  linarith

/-- A power of two is a bound that rounding does not exceed. -/
theorem units_nearestRank_le_mul_pow {e : ℕ} (hd : 0 < d) (h : n ≤ unitsPerOne * 2 ^ e * d) :
    unitsOfRank (nearestRank n d) ≤ unitsPerOne * 2 ^ e := by
  have hexact := unitsOfRank_nearestRank_mul hd (m := 1) (by decide) (fractionDigits + e)
  rw [Nat.one_mul, Nat.pow_add, ← unitsPerOne_eq] at hexact
  conv_rhs => rw [← hexact]
  exact unitsOfRank_strictMono.monotone (nearestRank_mono hd hd (Nat.mul_le_mul_right d h))

/-- What is below half a unit is rounded to zero. -/
theorem nearestRank_eq_zero (h : 2 * n < d) : nearestRank n d = 0 := by
  have hquotient : n / d = 0 := Nat.div_eq_of_lt (by omega)
  have hshift : shiftOf n d = 0 := by
    rw [shiftOf, hquotient, Nat.log2_zero]
  rw [nearestRank_eq, countOf, hshift, Nat.pow_zero, Nat.mul_one, roundDiv, hquotient,
    Nat.mod_eq_of_lt (by omega), if_pos h, Nat.zero_mul]

/-! ## Many roundings -/

theorem one_add_roundoff_nonneg : 0 ≤ 1 + roundoff := by
  rw [roundoff]
  positivity

theorem one_sub_roundoff_nonneg : 0 ≤ 1 - roundoff := by
  rw [roundoff]
  norm_num

theorem mul_roundoff_le (hk : k ≤ 2 ^ 10) : k * roundoff ≤ 1 / 2 ^ 43 := by
  have hcast : (k : ℚ) ≤ 2 ^ 10 := by exact_mod_cast hk
  rw [roundoff]
  linarith

/-- A thousand roundings take away next to nothing … -/
theorem le_one_sub_roundoff_pow (hk : k ≤ 2 ^ 10) : 1 - 1 / 2 ^ 43 ≤ (1 - roundoff) ^ k := by
  have hbernoulli := one_add_mul_le_pow (a := -roundoff) (by rw [roundoff]; norm_num) k
  have herror := mul_roundoff_le hk
  rw [← sub_eq_add_neg] at hbernoulli
  linarith

/-- … and add next to nothing. -/
theorem one_add_roundoff_pow_le (hk : k ≤ 2 ^ 10) : (1 + roundoff) ^ k ≤ 1 + 1 / 2 ^ 42 := by
  have hpos : 0 ≤ (1 + roundoff) ^ k := pow_nonneg one_add_roundoff_nonneg k
  have hproduct : (1 + roundoff) ^ k * (1 - roundoff) ^ k ≤ 1 := by
    rw [← mul_pow]
    refine pow_le_one₀ (mul_nonneg one_add_roundoff_nonneg one_sub_roundoff_nonneg) ?_
    rw [roundoff]
    norm_num
  have hscaled := (mul_le_mul_of_nonneg_left (le_one_sub_roundoff_pow hk) hpos).trans hproduct
  linarith

/-! ## Magnitudes -/

/-- The exponent of the largest power of two. -/
def maxExponent : ℕ := 1023

/-- The largest power of two in units: a magnitude below it is finite. -/
def finiteUnits : ℕ := unitsPerOne * 2 ^ maxExponent

theorem mul_pow_le_finiteUnits {e : ℕ} (h : e + k ≤ maxExponent) :
    unitsPerOne * 2 ^ e * 2 ^ k ≤ finiteUnits := by
  rw [Nat.mul_assoc, ← Nat.pow_add, finiteUnits]
  exact Nat.mul_le_mul_left _ (Nat.pow_le_pow_right Nat.two_pos h)

theorem mul_pow_lt_finiteUnits {e : ℕ} (h : e < maxExponent) : unitsPerOne * 2 ^ e < finiteUnits :=
  Nat.mul_lt_mul_of_pos_left (Nat.pow_lt_pow_right Nat.one_lt_two h) unitsPerOne_pos

theorem nearestRank_lt_of_lt_finiteUnits (hd : 0 < d) (h : n < d * finiteUnits) :
    nearestRank n d < rankCount :=
  nearestRank_lt_rankCount hd (Nat.le_refl maxExponent) h

/-- The number is finite, with so many units, whatever its sign. -/
def HasMagnitude (x : Binary64) (units : ℕ) : Prop :=
  ∃ negative, ∃ rank : Fin rankCount, x = finite negative rank ∧ unitsOfRank rank = units

theorem HasMagnitude.unique (h : HasMagnitude x u) (h' : HasMagnitude x v) : u = v := by
  obtain ⟨negative, rank, rfl, rfl⟩ := h
  obtain ⟨negative', rank', heq, rfl⟩ := h'
  cases heq
  rfl

theorem HasUnits.hasMagnitude (h : HasUnits x u) : HasMagnitude x u :=
  ⟨false, h⟩

theorem hasMagnitude_ofUnits (h : nearestRank u d < rankCount) (negative : Bool) :
    HasMagnitude (ofUnits negative u d) (unitsOfRank (nearestRank u d)) :=
  ⟨negative, _, ofUnits_eq_finite h negative, rfl⟩

/-- A number times a power of two is exact, were there no largest number. -/
theorem HasMagnitude.units_nearestRank_pow_mul (h : HasMagnitude x u) (e : ℕ) :
    unitsOfRank (nearestRank (2 ^ e * u) 1) = 2 ^ e * u := by
  obtain ⟨negative, rank, -, rfl⟩ := h
  exact unitsOfRank_nearestRank_pow_mul e rank

theorem HasMagnitude.units_nearestRank (h : HasMagnitude x u) :
    unitsOfRank (nearestRank u 1) = u := by
  have hexact := h.units_nearestRank_pow_mul 0
  rwa [Nat.pow_zero, Nat.one_mul] at hexact

theorem units_nearestRank_mono (hd : 0 < d) (hd' : 0 < d') (h : n * d' ≤ n' * d) :
    unitsOfRank (nearestRank n d) ≤ unitsOfRank (nearestRank n' d') :=
  unitsOfRank_strictMono.monotone (nearestRank_mono hd hd' h)

/-- What is no less than a number is not rounded below it. -/
theorem HasMagnitude.le_units_nearestRank (h : HasMagnitude x u) {n : ℕ} (hle : u ≤ n) :
    u ≤ unitsOfRank (nearestRank n 1) := by
  conv_lhs => rw [← h.units_nearestRank]
  exact units_nearestRank_mono Nat.one_pos Nat.one_pos (Nat.mul_le_mul_right 1 hle)

theorem HasMagnitude.nearestRank_lt (h : HasMagnitude x u) (hd : 0 < d) :
    nearestRank u d < rankCount := by
  obtain ⟨negative, rank, -, rfl⟩ := h
  refine lt_of_le_of_lt ?_ rank.isLt
  conv_rhs => rw [← nearestRank_unitsOfRank rank]
  exact nearestRank_mono hd Nat.one_pos (Nat.mul_le_mul_left _ hd)

/-- A square has no sign. -/
theorem HasMagnitude.mul_self (h : HasMagnitude x u) :
    x * x = ofUnits false (u * u) unitsPerOne := by
  obtain ⟨negative, rank, rfl, rfl⟩ := h
  rw [mul_def, mul, bne_self_eq_false]

theorem finite_div_natCast (negative : Bool) (rank : Fin rankCount) (hpos : 0 < k)
    (hk : k ≤ 2 ^ 53) : finite negative rank / (k : Binary64) =
      ofUnits negative (unitsOfRank rank) k := by
  obtain ⟨j, hj⟩ := exists_holds_ofInt (n := k) (by simpa using hk)
  have hunits : unitsOfRank j = k * unitsPerOne := by rw [hj.units, Int.natAbs_natCast]
  have hne : unitsOfRank j ≠ 0 := by
    rw [hunits]
    exact (Nat.mul_pos hpos unitsPerOne_pos).ne'
  rw [div_def, natCast_eq_ofInt, hj.eq_finite, div, if_neg hne, hunits,
    ofUnits_mul_right unitsPerOne_pos, decide_eq_false (Int.natCast_nonneg k).not_gt,
    Bool.bne_false]

/-- A quotient by an integer is no farther from zero than what is divided. -/
theorem HasMagnitude.div_natCast (h : HasMagnitude x u) (hpos : 0 < k) (hk : k ≤ 2 ^ 53) :
    HasMagnitude (x / k) (unitsOfRank (nearestRank u k)) := by
  have hlt := h.nearestRank_lt hpos
  obtain ⟨negative, rank, rfl, rfl⟩ := h
  rw [finite_div_natCast negative rank hpos hk]
  exact hasMagnitude_ofUnits hlt negative

theorem HasUnits.div_natCast (h : HasUnits x u) (hpos : 0 < k) (hk : k ≤ 2 ^ 53) :
    ∃ rank : Fin rankCount, x / k = finite false rank ∧ rank = nearestRank u k := by
  have hlt := h.hasMagnitude.nearestRank_lt hpos
  obtain ⟨rank, rfl, rfl⟩ := h
  rw [finite_div_natCast false rank hpos hk]
  exact ⟨_, ofUnits_eq_finite hlt false, rfl⟩

theorem natAbs_signedUnits (negative : Bool) (rank : ℕ) :
    (signedUnits negative rank).natAbs = unitsOfRank rank := by
  rw [signedUnits]
  cases negative with
  | false => rw [if_neg Bool.false_ne_true, Int.natAbs_natCast]
  | true => rw [if_pos rfl, Int.natAbs_neg, Int.natAbs_natCast]

theorem exists_add_eq_ofUnits (a b : Bool) (i j : Fin rankCount) :
    ∃ negative, finite a i + finite b j =
      ofUnits negative (signedUnits a i + signedUnits b j).natAbs 1 := by
  rw [add_def, add]
  split_ifs with hzero
  · exact ⟨a && b, by rw [hzero, zero, Int.natAbs_zero]⟩
  · exact ⟨_, rfl⟩

/-- Signs can make a sum smaller, not larger. -/
theorem HasMagnitude.exists_add (hx : HasMagnitude x u) (hy : HasMagnitude y v)
    (h : u + v < finiteUnits) :
    ∃ w, HasMagnitude (x + y) w ∧ w ≤ unitsOfRank (nearestRank (u + v) 1) := by
  obtain ⟨a, i, rfl, rfl⟩ := hx
  obtain ⟨b, j, rfl, rfl⟩ := hy
  have hsum : (signedUnits a i + signedUnits b j).natAbs ≤ unitsOfRank i + unitsOfRank j := by
    have habs := Int.natAbs_add_le (signedUnits a i) (signedUnits b j)
    rwa [natAbs_signedUnits, natAbs_signedUnits] at habs
  obtain ⟨negative, heq⟩ := exists_add_eq_ofUnits a b i j
  generalize (signedUnits a i + signedUnits b j).natAbs = units at hsum heq
  rw [heq]
  have hlt : nearestRank units 1 < rankCount :=
    nearestRank_lt_of_lt_finiteUnits Nat.one_pos (by rw [Nat.one_mul]; exact hsum.trans_lt h)
  exact ⟨_, hasMagnitude_ofUnits hlt negative,
    units_nearestRank_mono Nat.one_pos Nat.one_pos (Nat.mul_le_mul_right 1 hsum)⟩

/-- The difference of two magnitudes is no larger than either of them. -/
theorem exists_sub_hasMagnitude (i j : Fin rankCount) :
    ∃ w, HasMagnitude (finite false i - finite false j) w := by
  obtain ⟨negative, heq⟩ := exists_add_eq_ofUnits false true i j
  have hsum : (signedUnits false i + signedUnits true j).natAbs ≤
      max (unitsOfRank i) (unitsOfRank j) := by
    rw [signedUnits, signedUnits, if_neg Bool.false_ne_true, if_pos rfl]
    omega
  generalize (signedUnits false i + signedUnits true j).natAbs = units at hsum heq
  have hrank : nearestRank units 1 ≤ max i.val j.val := by
    rw [← unitsOfRank_strictMono.monotone.map_max] at hsum
    conv_rhs => rw [← nearestRank_unitsOfRank (max i.val j.val)]
    exact nearestRank_mono Nat.one_pos Nat.one_pos (Nat.mul_le_mul_right 1 hsum)
  rw [sub_def, neg, Bool.not_false, ← add_def, heq]
  exact ⟨_, hasMagnitude_ofUnits (hrank.trans_lt (max_lt i.isLt j.isLt)) negative⟩

/-! ## Sums of any length -/

section

variable {s r : ℚ}

/-- What is added first is rounded with each of the additions. -/
theorem add_mul_roundoff_pow_le (hs : s ≤ (u + v) * (1 + roundoff)) (hr : 0 ≤ r) (k : ℕ) :
    (s + r) * (1 + roundoff) ^ k ≤ (u + (v + r)) * (1 + roundoff) ^ (k + 1) := by
  have hgrowth : r ≤ r * (1 + roundoff) :=
    le_mul_of_one_le_right hr (by rw [roundoff]; norm_num)
  rw [pow_succ', ← mul_assoc]
  refine mul_le_mul_of_nonneg_right ?_ (pow_nonneg one_add_roundoff_nonneg k)
  linarith

theorem le_add_mul_roundoff_pow (hr : 0 ≤ r) (k : ℕ) :
    (u + v : ℚ) ≤ (u + (v + r)) * (1 + roundoff) ^ k := by
  have hgrowth : 1 ≤ (1 + roundoff) ^ k := one_le_pow₀ (by rw [roundoff]; norm_num)
  refine le_trans ?_ (le_mul_of_one_le_right (by positivity) hgrowth)
  linarith

end

/-- The magnitudes of the terms bound that of their sum, but for the roundings. -/
theorem HasMagnitude.exists_foldl_add (hxs : List.Forall₂ HasMagnitude xs us)
    (hx : HasMagnitude x u)
    (h : (u + us.sum : ℚ) * (1 + roundoff) ^ us.length < finiteUnits) :
    ∃ w, HasMagnitude (xs.foldl (· + ·) x) w ∧
      (w : ℚ) ≤ (u + us.sum) * (1 + roundoff) ^ us.length := by
  induction hxs generalizing x u with
  | nil => exact ⟨u, hx, by simp⟩
  | @cons y v ys us hy _ ih =>
      have hrest : (0 : ℚ) ≤ us.sum := Nat.cast_nonneg _
      rw [List.sum_cons, List.length_cons, Nat.cast_add] at h ⊢
      have hsum : (u + v : ℚ) < finiteUnits := (le_add_mul_roundoff_pow hrest _).trans_lt h
      obtain ⟨w, hw, hrounded⟩ := hx.exists_add hy (by exact_mod_cast hsum)
      have hle : (w : ℚ) ≤ (u + v) * (1 + roundoff) := by
        rw [← Nat.cast_add]
        exact (Nat.cast_le.mpr hrounded).trans (units_nearestRank_one_le (u + v))
      have hstep := add_mul_roundoff_pow_le hle hrest us.length
      obtain ⟨w', hw', hle'⟩ := ih hw (hstep.trans_lt h)
      exact ⟨w', hw', hle'.trans hstep⟩

/-- Where no term has a minus, the sum is not much smaller either, and not smaller than any term. -/
theorem HasUnits.exists_foldl_add_ge (hxs : List.Forall₂ HasUnits xs us) (hx : HasUnits x u)
    (h : (u + us.sum : ℚ) * (1 + roundoff) ^ us.length < finiteUnits) :
    ∃ w, HasUnits (xs.foldl (· + ·) x) w ∧
      (u + us.sum) * (1 - roundoff) ^ us.length ≤ (w : ℚ) ∧ ∀ v ∈ u :: us, v ≤ w := by
  induction hxs generalizing x u with
  | nil => exact ⟨u, hx, by simp⟩
  | @cons y v ys us hy _ ih =>
      have hrest : (0 : ℚ) ≤ us.sum := Nat.cast_nonneg _
      rw [List.sum_cons, List.length_cons, Nat.cast_add] at h ⊢
      have hsum : (u + v : ℚ) < finiteUnits := (le_add_mul_roundoff_pow hrest _).trans_lt h
      have hlt : nearestRank (u + v) 1 < rankCount :=
        nearestRank_lt_of_lt_finiteUnits Nat.one_pos (by rw [Nat.one_mul]; exact_mod_cast hsum)
      have hw := hasUnits_ofUnits hlt
      rw [← hx.add_eq hy] at hw
      have hupper := units_nearestRank_one_le (u + v)
      have hlower := le_units_nearestRank_one (u + v)
      rw [Nat.cast_add] at hupper hlower
      obtain ⟨w', hw', hge, hterms⟩ :=
        ih hw ((add_mul_roundoff_pow_le hupper hrest us.length).trans_lt h)
      obtain ⟨hfirst, hothers⟩ := List.forall_mem_cons.mp hterms
      refine ⟨w', hw', le_trans ?_ hge, ?_⟩
      · have hshrink : (us.sum : ℚ) * (1 - roundoff) ≤ us.sum :=
          mul_le_of_le_one_right hrest (by rw [roundoff]; norm_num)
        rw [pow_succ', ← mul_assoc]
        refine mul_le_mul_of_nonneg_right ?_ (pow_nonneg one_sub_roundoff_nonneg _)
        linarith
      · have hu := hx.hasMagnitude.le_units_nearestRank (Nat.le_add_right u v)
        have hv := hy.hasMagnitude.le_units_nearestRank (Nat.le_add_left v u)
        exact List.forall_mem_cons.mpr
          ⟨hu.trans hfirst, List.forall_mem_cons.mpr ⟨hv.trans hfirst, hothers⟩⟩

/-- A thousand terms do not overflow if each of them is far below the largest number. -/
theorem sum_mul_roundoff_pow_lt {e : ℕ} (hlength : us.length ≤ 1000) (he : e + 13 ≤ maxExponent)
    (h : ∀ u ∈ us, u ≤ unitsPerOne * 2 ^ e) :
    (us.sum : ℚ) * (1 + roundoff) ^ us.length < finiteUnits := by
  have hsum : us.sum ≤ 1000 * (unitsPerOne * 2 ^ e) := by
    refine (List.sum_le_card_nsmul us _ h).trans ?_
    exact Nat.mul_le_mul_right _ hlength
  have hfinite : 1000 * (unitsPerOne * 2 ^ e) * 2 < finiteUnits := by
    have hbound := mul_pow_le_finiteUnits he
    have hpos := Nat.mul_pos unitsPerOne_pos (Nat.two_pow_pos e)
    generalize unitsPerOne * 2 ^ e = bound at *
    omega
  have hgrowth : (1 + roundoff) ^ us.length ≤ 2 := by
    have hle := one_add_roundoff_pow_le (k := us.length) (by omega)
    linarith
  calc (us.sum : ℚ) * (1 + roundoff) ^ us.length
      ≤ (1000 * (unitsPerOne * 2 ^ e) : ℕ) * 2 :=
        mul_le_mul (Nat.cast_le.mpr hsum) hgrowth (pow_nonneg one_add_roundoff_nonneg _)
          (Nat.cast_nonneg _)
    _ < finiteUnits := by exact_mod_cast hfinite

theorem exists_hasMagnitude_total (hxs : List.Forall₂ HasMagnitude xs us)
    (h : (us.sum : ℚ) * (1 + roundoff) ^ us.length < finiteUnits) :
    ∃ w, HasMagnitude (Spread.total xs) w ∧ (w : ℚ) ≤ us.sum * (1 + roundoff) ^ us.length := by
  have hfold := hasUnits_zero.hasMagnitude.exists_foldl_add hxs
  rw [Nat.cast_zero, zero_add] at hfold
  exact hfold h

theorem exists_hasUnits_total (hxs : List.Forall₂ HasUnits xs us)
    (h : (us.sum : ℚ) * (1 + roundoff) ^ us.length < finiteUnits) :
    ∃ w, HasUnits (Spread.total xs) w ∧ us.sum * (1 - roundoff) ^ us.length ≤ (w : ℚ) ∧
      ∀ u ∈ us, u ≤ w := by
  have hfold := hasUnits_zero.exists_foldl_add_ge hxs
  rw [Nat.cast_zero, zero_add] at hfold
  obtain ⟨w, hw, hge, hterms⟩ := hfold h
  exact ⟨w, hw, hge, (List.forall_mem_cons.mp hterms).2⟩

end VisitGraph.Numeric.Binary64
