import VisitGraph.Numeric.Decimal
import VisitGraph.Proofs.Band.Thresholds
import VisitGraph.Proofs.Numeric.Accuracy
import VisitGraph.Proofs.Statistics.Variance

/-! # Spread of very small and very large numbers

The value under the root is a difference of two numbers that are rounded on their own. For at most a
thousand numbers the roundings cost far less than what is added because the values are not centred,
so that nothing negative is left over, except where the squares are rounded to zero one by one and
the square of the mean is not. With two numbers this cannot happen. -/

namespace VisitGraph

namespace Spread

open Numeric Binary64

/-! ## What the roundings may cost -/

section

variable {n one m q x mean squares : ℚ}

/-- The excess of the sum of squares over what is taken away from it is not small. -/
structure Margin (n one m q : ℚ) : Prop where
  mean_le : m ^ 2 ≤ q - (n - 1) * m ^ 2
  one_le : (n + 1) * one ≤ 2 * (q - (n - 1) * m ^ 2)

/-- A single large value is enough for the excess. -/
theorem margin_of_large (hspread : (x - m) ^ 2 + n * m ^ 2 ≤ q)
    (hlarge : (n + 1) * one ≤ x ^ 2) : Margin n one m q where
  mean_le := by linarith [sq_nonneg (x - m)]
  one_le := by
    have hhalf : x ^ 2 ≤ 2 * ((x - m) ^ 2 + m ^ 2) := by linarith [sq_nonneg (x - 2 * m)]
    linarith

theorem Margin.sq_mul_le (h : Margin n one m q) (htwo : 2 ≤ n) (hthousand : n ≤ 1000)
    (hone : 2 ^ 100 ≤ one) (hpos : 0 ≤ mean) (hmean : mean ≤ m * (1 + 1 / 2 ^ 42) + 1 / 2)
    (hsquares : q / one * (1 - 1 / 2 ^ 43) - n / 2 ≤ squares) :
    mean ^ 2 * (n - 1) ≤ squares * one := by
  have hone' : 0 < one := by linarith
  obtain ⟨hm, hexcess⟩ := h
  obtain ⟨w, hw⟩ : ∃ w, w = q - (n - 1) * m ^ 2 := ⟨_, rfl⟩
  rw [← hw] at hm hexcess
  have hw' : 0 ≤ w := (sq_nonneg m).trans hm
  -- what the roundings can add to the square of the mean
  have hsq : mean ^ 2 ≤ m ^ 2 + (4 / 2 ^ 42 * w + 2 ^ 43) := by
    have hgeometric : 2 * m ≤ m ^ 2 / 2 ^ 42 + 2 ^ 42 := by
      linarith [sq_nonneg (m / 2 ^ 21 - 2 ^ 21)]
    have hsq : mean ^ 2 ≤ (m * (1 + 1 / 2 ^ 42) + 1 / 2) ^ 2 := pow_le_pow_left₀ hpos hmean 2
    linarith
  have htaken : mean ^ 2 * (n - 1) ≤ (m ^ 2 + (4 / 2 ^ 42 * w + 2 ^ 43)) * (n - 1) :=
    mul_le_mul_of_nonneg_right hsq (by linarith)
  have hadded : (4 / 2 ^ 42 * w + 2 ^ 43) * (n - 1) ≤ (4 / 2 ^ 42 * w + 2 ^ 43) * 999 :=
    mul_le_mul_of_nonneg_left (by linarith) (by positivity)
  -- what they can take away from the sum of squares
  have hq : q ≤ w * 1000 := by
    have hrest := mul_le_mul_of_nonneg_right hm (show 0 ≤ n - 1 by linarith)
    have hbound := mul_le_mul_of_nonneg_left hthousand hw'
    linarith
  have hscaled : q * (1 - 1 / 2 ^ 43) - n / 2 * one ≤ squares * one := by
    have hmul := mul_le_mul_of_nonneg_right hsquares hone'.le
    rwa [sub_mul, mul_right_comm, div_mul_cancel₀ _ hone'.ne'] at hmul
  have hunderflow : n * one ≤ 1000 * one := mul_le_mul_of_nonneg_right hthousand hone'.le
  linarith

end

section

variable {rs : List ℚ} {x bound : ℚ}

theorem sq_sub_mean_add_le (h : 2 ≤ rs.length) (hx : x ∈ rs) :
    (x - mean rs) ^ 2 + rs.length * mean rs ^ 2 ≤ total (rs.map fun x => x * x) := by
  have hsum : rs.length * mean rs = rs.sum :=
    length_mul_mean (List.ne_nil_of_length_pos (by omega))
  have hle : (x - mean rs) ^ 2 ≤ (rs.map fun x => (x - mean rs) ^ 2).sum := by
    refine List.single_le_sum ?_ _ (List.mem_map_of_mem hx)
    simp only [List.forall_mem_map]
    exact fun x _ => sq_nonneg _
  rw [sum_sq_sub, ← hsum] at hle
  rw [total_eq_sum]
  linarith

theorem mean_le_of_forall_le (h : 2 ≤ rs.length) (hle : ∀ r ∈ rs, r ≤ bound) : mean rs ≤ bound := by
  have hpos : (0 : ℚ) < rs.length := Nat.cast_pos.mpr (by omega)
  rw [mean, total_eq_sum, div_le_iff₀' hpos, ← nsmul_eq_mul]
  exact List.sum_le_card_nsmul rs bound hle

end

/-! ## The two sides of the difference -/

variable {xs : List Binary64} {us : List ℕ}

/-- The exact values of some units, in units. -/
def exactUnits (us : List ℕ) : List ℚ :=
  us.map Nat.cast

theorem length_exactUnits (us : List ℕ) : (exactUnits us).length = us.length :=
  List.length_map _

theorem mean_exactUnits (us : List ℕ) : mean (exactUnits us) = us.sum / us.length := by
  rw [mean, total_eq_sum, length_exactUnits, exactUnits, Nat.cast_list_sum]

/-- Below this power of two, the squares of a thousand numbers do not overflow. -/
def moderateExponent : ℕ := 499

/-- At most a thousand numbers whose squares do not overflow. -/
structure Moderate (xs : List Binary64) (us : List ℕ) : Prop where
  magnitudes : List.Forall₂ HasMagnitude xs us
  two_le : 2 ≤ us.length
  length_le : us.length ≤ 1000
  le : ∀ u ∈ us, u ≤ unitsPerOne * 2 ^ moderateExponent

/-- The value under the root is the difference of two rounded quotients. -/
structure Sides (xs : List Binary64) (us : List ℕ) (squares mean : ℕ) (i j : Fin rankCount) :
    Prop where
  radicand_eq : radicand xs = finite false i - finite false j
  minuend_eq : i = nearestRank squares (us.length - 1)
  subtrahend_eq : j = nearestRank (mean * mean) unitsPerOne
  squares_ge : total ((exactUnits us).map fun u => u * u) / unitsPerOne * (1 - 1 / 2 ^ 43) -
    us.length / 2 ≤ squares
  mean_le : mean ≤ Spread.mean (exactUnits us) * (1 + 1 / 2 ^ 42) + 1 / 2
  square_le : ∀ u ∈ us, unitsOfRank (nearestRank (u * u) unitsPerOne) ≤ squares
  mean_le_of_pair : us.length = 2 → ∃ u ∈ us, mean ≤ u

namespace Moderate

theorem length_eq (h : Moderate xs us) : xs.length = us.length :=
  h.magnitudes.length_eq

theorem exists_mean (h : Moderate xs us) : ∃ u, HasMagnitude (mean xs) u ∧
    u ≤ unitsPerOne * 2 ^ (moderateExponent + 1) ∧
    (u : ℚ) ≤ mean (exactUnits us) * (1 + 1 / 2 ^ 42) + 1 / 2 := by
  have hlength := h.length_le
  have hpos : 0 < us.length := Nat.lt_of_lt_of_le Nat.two_pos h.two_le
  obtain ⟨w, hw, hle⟩ := exists_hasMagnitude_total h.magnitudes
    (sum_mul_roundoff_pow_lt hlength (by decide) h.le)
  refine ⟨_, by rw [mean, h.length_eq]; exact hw.div_natCast hpos (by omega), ?_, ?_⟩
  · refine units_nearestRank_le_mul_pow hpos ?_
    have hsum : us.sum ≤ us.length * (unitsPerOne * 2 ^ moderateExponent) :=
      List.sum_le_card_nsmul us _ h.le
    have hgrowth : (1 + roundoff) ^ us.length ≤ 2 := by
      linarith [one_add_roundoff_pow_le (k := us.length) (by omega)]
    have hdouble : unitsPerOne * 2 ^ (moderateExponent + 1) * us.length =
        us.length * (unitsPerOne * 2 ^ moderateExponent) * 2 := by
      rw [Nat.pow_succ]
      ring
    have hw : (w : ℚ) ≤ us.sum * 2 :=
      hle.trans (mul_le_mul_of_nonneg_left hgrowth (Nat.cast_nonneg _))
    rw [hdouble]
    exact le_trans (by exact_mod_cast hw) (Nat.mul_le_mul_right 2 hsum)
  · rw [mean_exactUnits]
    have hn : (0 : ℚ) < us.length := Nat.cast_pos.mpr hpos
    have hgrowth := one_add_roundoff_pow_le (k := us.length + 1) (by omega)
    calc (unitsOfRank (nearestRank w us.length) : ℚ)
        ≤ w / us.length * (1 + roundoff) + 1 / 2 := units_nearestRank_le hpos w
      _ ≤ us.sum * (1 + roundoff) ^ us.length / us.length * (1 + roundoff) + 1 / 2 := by
          have hone := one_add_roundoff_nonneg
          gcongr
      _ = us.sum / us.length * (1 + roundoff) ^ (us.length + 1) + 1 / 2 := by ring
      _ ≤ us.sum / us.length * (1 + 1 / 2 ^ 42) + 1 / 2 := by gcongr

/-- The mean of two numbers is not rounded beyond the larger one, for twice that number is exact. -/
theorem mean_le_of_pair {x y : Binary64} {u v m largest : ℕ} (h : Moderate [x, y] [u, v])
    (hm : HasMagnitude (mean [x, y]) m) {z : Binary64} (hz : HasMagnitude z largest)
    (hu : u ≤ largest) (hv : v ≤ largest) : m ≤ largest := by
  obtain ⟨hx, hrest⟩ := List.forall₂_cons.mp h.magnitudes
  obtain ⟨hy, -⟩ := List.forall₂_cons.mp hrest
  have hbound : unitsPerOne * 2 ^ moderateExponent * 2 ^ 2 ≤ finiteUnits :=
    mul_pow_le_finiteUnits (by decide)
  have hu' := h.le u (by simp)
  have hv' := h.le v (by simp)
  have hpos := Nat.mul_pos unitsPerOne_pos (Nat.two_pow_pos moderateExponent)
  generalize unitsPerOne * 2 ^ moderateExponent = bound at *
  obtain ⟨w, hw, hle⟩ := hasUnits_zero.hasMagnitude.exists_add hx (by omega)
  rw [Nat.zero_add, hx.units_nearestRank] at hle
  obtain ⟨w', hw', hle'⟩ := hw.exists_add hy (by omega)
  have htwice : w' ≤ 2 ^ 1 * largest := by
    refine hle'.trans ?_
    rw [← hz.units_nearestRank_pow_mul 1]
    exact units_nearestRank_mono Nat.one_pos Nat.one_pos (by omega)
  obtain rfl := hm.unique (hw'.div_natCast (k := 2) Nat.two_pos (by decide))
  rw [← hz.units_nearestRank]
  exact units_nearestRank_mono Nat.two_pos Nat.one_pos (by omega)

theorem exists_ge_mean {m : ℕ} (h : Moderate xs us) (hm : HasMagnitude (mean xs) m)
    (htwo : us.length = 2) : ∃ u ∈ us, m ≤ u := by
  obtain ⟨u, v, rfl⟩ := List.length_eq_two.mp htwo
  obtain ⟨x, y, rfl⟩ := List.length_eq_two.mp (h.length_eq.trans htwo)
  obtain ⟨hx, hrest⟩ := List.forall₂_cons.mp h.magnitudes
  obtain ⟨hy, -⟩ := List.forall₂_cons.mp hrest
  rcases Nat.le_total u v with huv | hvu
  · exact ⟨v, by simp, h.mean_le_of_pair hm hy huv le_rfl⟩
  · exact ⟨u, by simp, h.mean_le_of_pair hm hx le_rfl hvu⟩

/-- The units of the rounded squares. -/
def squareUnits (us : List ℕ) : List ℕ :=
  us.map fun u => unitsOfRank (nearestRank (u * u) unitsPerOne)

theorem mul_self_le {u : ℕ} {e : ℕ} (h : u ≤ unitsPerOne * 2 ^ e) :
    u * u ≤ unitsPerOne * 2 ^ (2 * e) * unitsPerOne := by
  calc u * u ≤ unitsPerOne * 2 ^ e * (unitsPerOne * 2 ^ e) := Nat.mul_le_mul h h
    _ = unitsPerOne * 2 ^ (2 * e) * unitsPerOne := by ring

theorem squareUnits_le (h : Moderate xs us) :
    ∀ u ∈ squareUnits us, u ≤ unitsPerOne * 2 ^ (2 * moderateExponent) := by
  simp only [squareUnits, List.forall_mem_map]
  exact fun u hu => units_nearestRank_le_mul_pow unitsPerOne_pos (mul_self_le (h.le u hu))

theorem nearestRank_mul_self_lt {u e : ℕ} (h : u ≤ unitsPerOne * 2 ^ e)
    (he : 2 * e < maxExponent) : nearestRank (u * u) unitsPerOne < rankCount := by
  refine nearestRank_lt_of_lt_finiteUnits unitsPerOne_pos ?_
  calc u * u ≤ unitsPerOne * (unitsPerOne * 2 ^ (2 * e)) := by
        rw [Nat.mul_comm unitsPerOne]
        exact mul_self_le h
    _ < unitsPerOne * finiteUnits :=
        Nat.mul_lt_mul_of_pos_left (mul_pow_lt_finiteUnits he) unitsPerOne_pos

theorem forall₂_squareUnits (h : Moderate xs us) :
    List.Forall₂ HasUnits (xs.map fun x => x * x) (squareUnits us) := by
  rw [squareUnits, List.forall₂_map_left_iff, List.forall₂_map_right_iff]
  have hbounded := (List.forall₂_and_left us xs).mpr ⟨h.le, h.magnitudes.flip⟩
  refine hbounded.flip.imp fun x u hxu => ?_
  obtain ⟨hle, hx⟩ : _ ∧ HasMagnitude x u := hxu
  rw [hx.mul_self]
  exact hasUnits_ofUnits (nearestRank_mul_self_lt hle (by decide))

/-- Each square loses half a unit at most, and no more than its last digit. -/
theorem sum_squareUnits_ge (us : List ℕ) :
    total ((exactUnits us).map fun u => u * u) / unitsPerOne * (1 - roundoff) - us.length / 2 ≤
      (squareUnits us).sum := by
  rw [total_eq_sum, exactUnits, squareUnits]
  induction us with
  | nil =>
      simp only [List.map_nil, List.sum_nil, List.length_nil, Nat.cast_zero, zero_div, zero_mul,
        sub_zero, le_refl]
  | cons u us ih =>
      have hsquare := le_units_nearestRank unitsPerOne_pos (u * u)
      rw [Nat.cast_mul] at hsquare
      simp only [List.map_cons, List.sum_cons, List.length_cons, Nat.cast_add, Nat.cast_one,
        add_div, add_mul] at ih ⊢
      linarith

theorem exists_squares (h : Moderate xs us) :
    ∃ t, HasUnits (total (xs.map fun x => x * x)) t ∧
      total ((exactUnits us).map fun u => u * u) / unitsPerOne * (1 - 1 / 2 ^ 43) -
        us.length / 2 ≤ t ∧
      ∀ u ∈ us, unitsOfRank (nearestRank (u * u) unitsPerOne) ≤ t := by
  have hlength : (squareUnits us).length = us.length := List.length_map _
  have hthousand := h.length_le
  obtain ⟨t, ht, hge, hterms⟩ := exists_hasUnits_total h.forall₂_squareUnits
    (sum_mul_roundoff_pow_lt (hlength.trans_le h.length_le) (by decide) h.squareUnits_le)
  refine ⟨t, ht, le_trans ?_ hge, by simpa only [squareUnits, List.forall_mem_map] using hterms⟩
  have hsquares := sum_squareUnits_ge us
  rw [hlength]
  have hshrink := le_one_sub_roundoff_pow (k := us.length + 1) (by omega)
  have hpow : (1 - roundoff) ^ us.length ≤ 1 :=
    pow_le_one₀ one_sub_roundoff_nonneg (by rw [roundoff]; norm_num)
  have hpow' := pow_nonneg one_sub_roundoff_nonneg us.length
  have hq : 0 ≤ total ((exactUnits us).map fun u => u * u) / (unitsPerOne : ℚ) := by
    rw [total_eq_sum]
    refine div_nonneg (List.sum_nonneg ?_) (Nat.cast_nonneg _)
    simp only [List.forall_mem_map]
    exact fun u _ => mul_self_nonneg u
  generalize total ((exactUnits us).map fun u => u * u) / (unitsPerOne : ℚ) = q at *
  calc q * (1 - 1 / 2 ^ 43) - us.length / 2
      ≤ q * (1 - roundoff) ^ (us.length + 1) - us.length / 2 * (1 - roundoff) ^ us.length :=
        sub_le_sub (mul_le_mul_of_nonneg_left hshrink hq)
          (mul_le_of_le_one_right (by positivity) hpow)
    _ = (q * (1 - roundoff) - us.length / 2) * (1 - roundoff) ^ us.length := by ring
    _ ≤ (squareUnits us).sum * (1 - roundoff) ^ us.length :=
        mul_le_mul_of_nonneg_right hsquares hpow'

theorem exists_sides (h : Moderate xs us) : ∃ squares mean i j, Sides xs us squares mean i j := by
  have hthousand := h.length_le
  have htwo := h.two_le
  obtain ⟨t, ht, hsquares, hterms⟩ := h.exists_squares
  obtain ⟨u, hu, hsmall, hmean⟩ := h.exists_mean
  obtain ⟨i, hi, hrank⟩ := ht.div_natCast (k := us.length - 1) (by omega) (by omega)
  have hlt := nearestRank_mul_self_lt hsmall (by decide)
  refine ⟨t, u, i, ⟨_, hlt⟩, ?_, hrank, rfl, hsquares, hmean, hterms, h.exists_ge_mean hu⟩
  rw [radicand, h.length_eq, hi, hu.mul_self, ofUnits_eq_finite hlt]

end Moderate

/-! ## No minus under the root -/

namespace Sides

variable {squares mean : ℕ} {i j : Fin rankCount}

theorem exists_hasMagnitude (h : Sides xs us squares mean i j) :
    ∃ u, HasMagnitude (radicand xs) u := by
  rw [h.radicand_eq]
  exact exists_sub_hasMagnitude i j

theorem exists_finite_of_le (h : Sides xs us squares mean i j) (hle : j ≤ i) :
    ∃ rank, radicand xs = finite false rank := by
  rw [h.radicand_eq]
  exact exists_sub_eq_finite hle

/-- If one magnitude is large enough, the sum of squares is far enough from what is taken away. -/
theorem le_of_large (h : Sides xs us squares mean i j) (htwo : 2 ≤ us.length)
    (hthousand : us.length ≤ 1000) {u : ℕ} (hu : u ∈ us)
    (hlarge : (us.length + 1) * unitsPerOne ≤ u ^ 2) : j ≤ i := by
  have hlength := length_exactUnits us
  have hone := two_pow_le_unitsPerOne
  have hmem : (u : ℚ) ∈ exactUnits us := List.mem_map_of_mem hu
  have hspread := sq_sub_mean_add_le (htwo.trans_eq hlength.symm) hmem
  rw [hlength] at hspread
  have hlarge' : (us.length + 1 : ℚ) * unitsPerOne ≤ (u : ℚ) ^ 2 := by exact_mod_cast hlarge
  have hle := (margin_of_large hspread hlarge').sq_mul_le (by exact_mod_cast htwo)
    (by exact_mod_cast hthousand) hone (Nat.cast_nonneg mean) h.mean_le h.squares_ge
  have hle' : mean * mean * (us.length - 1) ≤ squares * unitsPerOne := by
    rw [← Nat.cast_le (α := ℚ)]
    push_cast [Nat.cast_sub (show 1 ≤ us.length by omega)]
    rwa [← pow_two]
  rw [Fin.le_def, h.minuend_eq, h.subtrahend_eq]
  exact nearestRank_mono unitsPerOne_pos (by omega) hle'

/-- Of two squares the larger one is no smaller than the square of the mean. -/
theorem le_of_pair (h : Sides xs us squares mean i j) (htwo : us.length = 2) : j ≤ i := by
  obtain ⟨u, hu, hmean⟩ := h.mean_le_of_pair htwo
  have hsubtrahend : j ≤ nearestRank (u * u) unitsPerOne := by
    rw [h.subtrahend_eq]
    refine nearestRank_mono unitsPerOne_pos unitsPerOne_pos ?_
    exact Nat.mul_le_mul_right _ (Nat.mul_le_mul hmean hmean)
  have hminuend : nearestRank (u * u) unitsPerOne ≤ i := by
    rw [h.minuend_eq, htwo]
    conv_lhs => rw [← nearestRank_unitsOfRank (nearestRank (u * u) unitsPerOne)]
    exact nearestRank_mono Nat.one_pos Nat.one_pos (Nat.mul_le_mul_right 1 (h.square_le u hu))
  exact Fin.le_def.mpr (hsubtrahend.trans hminuend)

theorem unitsPerOne_mul_le : unitsPerOne * 49348 ≤ (10 ^ 164) ^ 2 := by
  decide +kernel

/-- If all magnitudes are small enough, the square of the mean is rounded to zero. -/
theorem le_of_small (h : Sides xs us squares mean i j) (htwo : 2 ≤ us.length)
    (hsmall : ∀ u ∈ us, (u : ℚ) ≤ 157 / 10 ^ 164 * unitsPerOne) : j ≤ i := by
  have hzero : nearestRank (mean * mean) unitsPerOne = 0 := by
    refine nearestRank_eq_zero ?_
    have hbound : Spread.mean (exactUnits us) ≤ 157 / 10 ^ 164 * unitsPerOne := by
      refine mean_le_of_forall_le (htwo.trans_eq (length_exactUnits us).symm) ?_
      simpa only [exactUnits, List.forall_mem_map] using hsmall
    have hsquare : (unitsPerOne : ℚ) * (unitsPerOne * 49348) ≤ unitsPerOne * (10 ^ 164) ^ 2 :=
      mul_le_mul_of_nonneg_left (by exact_mod_cast unitsPerOne_mul_le) (Nat.cast_nonneg _)
    have hone := two_pow_le_unitsPerOne
    have hmean : (mean : ℚ) ≤ 157 / 10 ^ 164 * unitsPerOne * (1 + 1 / 2 ^ 42) + 1 / 2 := by
      linarith [h.mean_le]
    have hsq := pow_le_pow_left₀ (Nat.cast_nonneg mean) hmean 2
    have hlt : (2 : ℚ) * (mean * mean) < unitsPerOne := by
      generalize (unitsPerOne : ℚ) = one at *
      linarith
    exact_mod_cast hlt
  rw [Fin.le_def, h.subtrahend_eq, hzero]
  exact Nat.zero_le _

end Sides

end Spread

/-! ## Values of either kind -/

namespace Numeric.Quantity

open Binary64 Spread

variable {value : Quantity} {v : ℚ}

/-- The exact value of an integer or of a finite number. -/
def value? : Quantity → Option ℚ
  | int n => some n
  | real x => x.value?

/-- The floating point number that stands for the value. -/
def nearest : Quantity → Binary64
  | int n => ofInt n
  | real x => x

/-- The magnitude of that number, where it is finite. -/
def units : Quantity → ℕ
  | int n => unitsOfRank (nearestRank (n.natAbs * unitsPerOne) 1)
  | real (.finite _ rank) => unitsOfRank rank
  | real _ => 0

/-- The value is converted to a number that is not too large. -/
structure IsModerate (value : Quantity) : Prop where
  toReal_eq : value.toReal = .ok value.nearest
  magnitude : HasMagnitude value.nearest value.units
  le : value.units ≤ unitsPerOne * 2 ^ moderateExponent

theorem ten_pow_le : 10 ^ 150 ≤ 2 ^ moderateExponent := by
  decide +kernel

theorem isModerate_int {n : ℤ} (h : n.natAbs ≤ 10 ^ 150) : IsModerate (int n) := by
  have hle : n.natAbs * unitsPerOne ≤ unitsPerOne * 2 ^ moderateExponent := by
    rw [Nat.mul_comm]
    exact Nat.mul_le_mul_left _ (h.trans ten_pow_le)
  have hlt : nearestRank (n.natAbs * unitsPerOne) 1 < rankCount := by
    refine nearestRank_lt_of_lt_finiteUnits Nat.one_pos ?_
    rw [Nat.one_mul]
    exact hle.trans_lt (mul_pow_lt_finiteUnits (by decide))
  refine ⟨toReal_int_eq_ok.mpr ⟨hlt, rfl⟩, ?_, ?_⟩
  · rw [nearest, ofInt, ofRatio]
    exact hasMagnitude_ofUnits hlt _
  · exact units_nearestRank_le_mul_pow Nat.one_pos (hle.trans_eq (Nat.mul_one _).symm)

theorem units_real {negative : Bool} {rank : Fin rankCount}
    (h : (real (finite negative rank)).value? = some v) :
    (unitsOfRank rank : ℚ) = |v| * unitsPerOne := by
  have hone : (0 : ℚ) < unitsPerOne := Nat.cast_pos.mpr unitsPerOne_pos
  obtain rfl := Option.some.inj h
  rw [abs_div, abs_of_pos hone, div_mul_cancel₀ _ hone.ne', ← Int.cast_abs, ← Nat.cast_natAbs,
    natAbs_signedUnits]

theorem isModerate_of_value (h : value.value? = some v) (hv : |v| ≤ 10 ^ 150) :
    IsModerate value := by
  cases value with
  | int n =>
      obtain rfl := Option.some.inj h
      rw [← Int.cast_abs, ← Nat.cast_natAbs] at hv
      exact isModerate_int (by exact_mod_cast hv)
  | real x =>
      cases x with
      | nan => cases h
      | infinity negative => cases h
      | finite negative rank =>
          refine ⟨rfl, ⟨negative, rank, rfl, rfl⟩, ?_⟩
          have hbound : (unitsOfRank rank : ℚ) ≤ (10 ^ 150 * unitsPerOne : ℕ) := by
            rw [units_real h]
            push_cast
            exact mul_le_mul_of_nonneg_right hv (Nat.cast_nonneg _)
          rw [Nat.mul_comm]
          exact (Nat.cast_le.mp hbound).trans (Nat.mul_le_mul_right _ ten_pow_le)

theorem unitsPerOne_le_units {n : ℤ} (h : n ≠ 0) : unitsPerOne ≤ (int n).units := by
  have hone := unitsOfRank_shareRank_self Nat.one_pos
  rw [shareRank] at hone
  conv_lhs => rw [← hone]
  refine unitsOfRank_strictMono.monotone (nearestRank_mono Nat.one_pos Nat.one_pos ?_)
  exact Nat.mul_le_mul_right 1 (Nat.mul_le_mul_right _ (Int.natAbs_pos.mpr h))

/-- The units of a floating point number are exact, and those of an integer are not small. -/
theorem units_eq_or (h : value.value? = some v) :
    (value.units : ℚ) = |v| * unitsPerOne ∨ 1 ≤ |v| ∧ unitsPerOne ≤ value.units := by
  cases value with
  | int n =>
      obtain rfl := Option.some.inj h
      rcases eq_or_ne n 0 with rfl | hn
      · left
        rw [units, Int.natAbs_zero, Nat.zero_mul, nearestRank_zero, unitsOfRank_zero, Int.cast_zero,
          abs_zero, zero_mul, Nat.cast_zero]
      · right
        refine ⟨?_, unitsPerOne_le_units hn⟩
        rw [← Int.cast_abs]
        exact_mod_cast Int.one_le_abs hn
  | real x =>
      cases x with
      | nan => cases h
      | infinity negative => cases h
      | finite negative rank => exact .inl (units_real h)

theorem units_le_of_small (h : value.value? = some v) (hv : |v| ≤ 157 / 10 ^ 164) :
    (value.units : ℚ) ≤ 157 / 10 ^ 164 * unitsPerOne := by
  rcases units_eq_or h with heq | ⟨hone, -⟩
  · rw [heq]
    exact mul_le_mul_of_nonneg_right hv (Nat.cast_nonneg _)
  · exact absurd (hone.trans hv) (by norm_num)

theorem le_units_sq_of_large {n : ℕ} (hn : n ≤ 1000) (h : value.value? = some v)
    (hv : (n + 1) / unitsPerOne ≤ v ^ 2) : (n + 1) * unitsPerOne ≤ value.units ^ 2 := by
  have hone := two_pow_le_unitsPerOne
  rcases units_eq_or h with heq | ⟨-, hle⟩
  · have hpos : (0 : ℚ) < unitsPerOne := by linarith
    have hsq : ((n + 1) * unitsPerOne : ℚ) ≤ value.units ^ 2 := by
      rw [div_le_iff₀ hpos] at hv
      rw [heq, mul_pow, sq_abs, pow_two (unitsPerOne : ℚ), ← mul_assoc]
      exact mul_le_mul_of_nonneg_right hv hpos.le
    exact_mod_cast hsq
  · rw [pow_two]
    refine Nat.mul_le_mul ?_ hle
    have hn' : (n + 1 : ℚ) ≤ unitsPerOne := by
      have hcast : (n : ℚ) ≤ 1000 := by exact_mod_cast hn
      linarith
    exact le_trans (by exact_mod_cast hn') hle

end Numeric.Quantity

namespace Spread

open Numeric Binary64

variable {values : List Quantity}

theorem moderate_of_isModerate (htwo : 2 ≤ values.length) (hlength : values.length ≤ 1000)
    (h : ∀ value ∈ values, value.IsModerate) :
    Moderate (values.map Quantity.nearest) (values.map Quantity.units) where
  magnitudes := by
    rw [List.forall₂_map_left_iff, List.forall₂_map_right_iff, List.forall₂_same]
    exact fun value hvalue => (h value hvalue).magnitude
  two_le := by rwa [List.length_map]
  length_le := by rwa [List.length_map]
  le := by
    simp only [List.forall_mem_map]
    exact fun value hvalue => (h value hvalue).le

/-- Mean and spread of up to a thousand numbers of moderate size are computed without overflow, and
there is no minus under the root unless the squares of more than two numbers underflow: all numbers
may be so small that even the square of their mean is rounded to zero, or one may be so large that
its square alone makes up for the underflow of all others. -/
theorem meanAndSpread_defined (htwo : 2 ≤ values.length) (hlength : values.length ≤ 1000)
    (hfinite : ∀ value ∈ values, ∃ v, value.value? = some v ∧ |v| ≤ 10 ^ 150) :
    ∃ xs, values.mapM Quantity.toReal = .ok xs ∧
      (∃ negative rank, radicand xs = finite negative rank) ∧
      (values.length = 2 ∨
          (∀ value ∈ values, ∀ v, value.value? = some v → |v| ≤ 157 / 10 ^ 164) ∨
          (∃ value ∈ values, ∃ v, value.value? = some v ∧
            (values.length + 1) / unitsPerOne ≤ v ^ 2) →
        (radicand xs).isNegative = false ∧
          meanAndSpread values = .ok (mean xs, (radicand xs).sqrt)) := by
  have hmoderate : ∀ value ∈ values, value.IsModerate := by
    intro value hvalue
    obtain ⟨v, hv, hle⟩ := hfinite value hvalue
    exact Quantity.isModerate_of_value hv hle
  have hconverted : values.mapM Quantity.toReal = .ok (values.map Quantity.nearest) :=
    mapM_eq_ok_map fun value hvalue => (hmoderate value hvalue).toReal_eq
  have hlists := moderate_of_isModerate htwo hlength hmoderate
  obtain ⟨squares, mean, i, j, hsides⟩ := hlists.exists_sides
  obtain ⟨u, negative, rank, hradicand, -⟩ := hsides.exists_hasMagnitude
  refine ⟨_, hconverted, ⟨negative, rank, hradicand⟩, fun hrange => ?_⟩
  have hle : j ≤ i := by
    rcases hrange with hpair | hsmall | ⟨value, hvalue, v, hv, hlarge⟩
    · exact hsides.le_of_pair (by rwa [List.length_map])
    · refine hsides.le_of_small hlists.two_le ?_
      simp only [List.forall_mem_map]
      intro value hvalue
      obtain ⟨v, hv, -⟩ := hfinite value hvalue
      exact Quantity.units_le_of_small hv (hsmall value hvalue v hv)
    · refine hsides.le_of_large hlists.two_le hlists.length_le (List.mem_map_of_mem hvalue) ?_
      rw [List.length_map]
      exact Quantity.le_units_sq_of_large hlength hv hlarge
  obtain ⟨rank, hrank⟩ := hsides.exists_finite_of_le hle
  have hsign : (radicand (values.map Quantity.nearest)).isNegative = false := by
    rw [hrank, isNegative, Bool.false_and]
  exact ⟨hsign, meanAndSpread_eq_ok.mpr ⟨htwo, _, hconverted, hsign, rfl, rfl⟩⟩

/-- The square of the smallest number underflows, but there is a three beside it. -/
theorem meanAndSpread_defined_smallest_three :
    let values := [Quantity.real (finite false ⟨1, by decide⟩), .int 3]
    2 ≤ values.length ∧ values.length ≤ 1000 ∧
      (∀ value ∈ values, ∃ v, value.value? = some v ∧ |v| ≤ 10 ^ 150) ∧
      (∃ value ∈ values, ∃ v, value.value? = some v ∧
        (values.length + 1) / unitsPerOne ≤ v ^ 2) ∧
      ∃ xs, values.mapM Quantity.toReal = .ok xs ∧ (radicand xs).isNegative = false ∧
        meanAndSpread values = .ok (mean xs, (radicand xs).sqrt) := by
  intro values
  have hunits : (1 : ℚ) ≤ unitsPerOne := by linarith [two_pow_le_unitsPerOne]
  have hfinite : ∀ value ∈ values, ∃ v, value.value? = some v ∧ |v| ≤ 10 ^ 150 := by
    rw [List.forall_mem_cons, List.forall_mem_singleton]
    refine ⟨⟨1 / unitsPerOne, by decide +kernel, ?_⟩, 3, rfl, by norm_num⟩
    rw [abs_of_pos (by positivity)]
    exact (div_le_one_of_le₀ hunits (Nat.cast_nonneg _)).trans (by norm_num)
  have hlarge : ∃ value ∈ values, ∃ v, value.value? = some v ∧
      (values.length + 1) / unitsPerOne ≤ v ^ 2 := by
    refine ⟨.int 3, List.mem_cons_of_mem _ List.mem_cons_self, 3, rfl, ?_⟩
    rw [div_le_iff₀ (by linarith)]
    simp only [values, List.length_cons, List.length_nil]
    push_cast
    linarith
  have htwo : 2 ≤ values.length := by decide
  have hlength : values.length ≤ 1000 := by decide
  obtain ⟨xs, hxs, -, hdefined⟩ := meanAndSpread_defined htwo hlength hfinite
  exact ⟨htwo, hlength, hfinite, hlarge, xs, hxs, hdefined (.inr (.inr hlarge))⟩

/-- Ten equal numbers whose squares are rounded to zero: their mean is rounded up, and its square
is not zero. -/
theorem meanAndSpread_ten_equal_fails :
    let values := List.replicate 10
      (Quantity.real (Decimal.toBinary64 false ⟨15717277847026285, -178⟩))
    2 ≤ values.length ∧ values.length ≤ 1000 ∧
      (∀ value ∈ values, ∃ v, value.value? = some v ∧ |v| ≤ 10 ^ 150) ∧
      meanAndSpread values = .error .negativeRadicand := by
  intro values
  refine ⟨by decide, by decide, fun value hvalue => ?_, by decide +kernel⟩
  rw [List.eq_of_mem_replicate hvalue]
  have hbound : ((Quantity.real (Decimal.toBinary64 false ⟨15717277847026285, -178⟩)).value?.any
      fun v => |v| ≤ 10 ^ 150) = true := by decide +kernel
  rw [Option.any_eq_true] at hbound
  obtain ⟨v, hv, hle⟩ := hbound
  exact ⟨v, hv, of_decide_eq_true hle⟩

end Spread

end VisitGraph
