import Mathlib.Order.Monotone.Basic
import VisitGraph.Numeric.Binary64
import VisitGraph.Proofs.Numeric.Rounding

/-! # Ranks of magnitudes

The rank of a ratio is fixed by the binade in which the ratio lies. Ranks grow with the ratio, the
magnitude of the rank is near to it, and equal to it if it has at most 53 binary digits before its
trailing zeros. -/

namespace VisitGraph.Numeric

theorem rankCount_eq : rankCount = 2047 * 2 ^ 52 := rfl

/-- The number of binary digits behind the point when a magnitude is counted in units. -/
def fractionDigits : ℕ := 1074

theorem unitsPerOne_eq : unitsPerOne = 2 ^ fractionDigits := by
  decide +kernel

theorem unitsPerOne_pos : 0 < unitsPerOne := by
  rw [unitsPerOne_eq]
  exact Nat.two_pow_pos _

namespace Binary64

variable {n n' d d' c k m shift shift' : ℕ}

/-! ## Binades -/

/-- At this shift the ratio is counted in at most 53 digits, and in exactly 53 unless the shift is
zero. -/
structure IsShift (n d shift : ℕ) : Prop where
  lt : n < d * 2 ^ shift * 2 ^ 53
  ge : shift = 0 ∨ d * 2 ^ shift * 2 ^ 52 ≤ n

/-- The shift of a ratio. -/
def shiftOf (n d : ℕ) : ℕ :=
  (n / d).log2 - 52

theorem spacing_pos (hd : 0 < d) (n : ℕ) : 0 < d * 2 ^ shiftOf n d :=
  Nat.mul_pos hd (Nat.two_pow_pos _)

theorem isShift_shiftOf (hd : 0 < d) (n : ℕ) : IsShift n d (shiftOf n d) := by
  have hlt : n / d < 2 ^ ((n / d).log2 + 1) := Nat.lt_log2_self
  constructor
  · have hle : 2 ^ ((n / d).log2 + 1) ≤ 2 ^ (shiftOf n d + 53) :=
      Nat.pow_le_pow_right (by decide) (by rw [shiftOf]; omega)
    rw [Nat.mul_assoc, ← Nat.pow_add, Nat.mul_comm, ← Nat.div_lt_iff_lt_mul hd]
    exact hlt.trans_le hle
  · rcases Nat.eq_zero_or_pos (shiftOf n d) with hzero | hpos
    · exact .inl hzero
    · have hlog : shiftOf n d + 52 = (n / d).log2 := by
        rw [shiftOf] at hpos ⊢
        omega
      have hne : n / d ≠ 0 := by
        intro hquotient
        rw [shiftOf, hquotient] at hpos
        exact absurd hpos (by decide)
      rw [Nat.mul_assoc, ← Nat.pow_add, Nat.mul_comm, ← Nat.le_div_iff_mul_le hd, hlog]
      exact .inr (Nat.log2_self_le hne)

/-- A larger ratio has no smaller shift. -/
theorem IsShift.le (h : IsShift n d shift) (h' : IsShift n' d' shift') (hd : 0 < d)
    (hle : n * d' ≤ n' * d) : shift ≤ shift' := by
  rcases h.ge with hzero | hge
  · omega
  · have hpow : (d * d') * 2 ^ (shift + 52) < (d * d') * 2 ^ (shift' + 53) := by
      calc (d * d') * 2 ^ (shift + 52) = d * 2 ^ shift * 2 ^ 52 * d' := by ring
        _ ≤ n * d' := Nat.mul_le_mul_right d' hge
        _ ≤ n' * d := hle
        _ < d' * 2 ^ shift' * 2 ^ 53 * d := Nat.mul_lt_mul_of_pos_right h'.lt hd
        _ = (d * d') * 2 ^ (shift' + 53) := by ring
    have hexp : shift + 52 < shift' + 53 :=
      (Nat.pow_lt_pow_iff_right (by decide)).mp (Nat.lt_of_mul_lt_mul_left hpow)
    omega

/-- A ratio below a power of two is counted with no more digits than that power has. -/
theorem IsShift.eq_zero_or_lt (h : IsShift n d shift) (hlt : n < d * 2 ^ m) :
    shift = 0 ∨ shift + 52 < m := by
  refine h.ge.imp id fun hge => ?_
  have hpow : d * 2 ^ (shift + 52) < d * 2 ^ m := by
    rw [Nat.pow_add, ← Nat.mul_assoc]
    exact hge.trans_lt hlt
  exact (Nat.pow_lt_pow_iff_right Nat.one_lt_two).mp (Nat.lt_of_mul_lt_mul_left hpow)

/-- The ratio in whole multiples of its spacing. -/
def countOf (n d : ℕ) : ℕ :=
  roundDiv n (d * 2 ^ shiftOf n d)

theorem nearestRank_eq (n d : ℕ) :
    nearestRank n d = shiftOf n d * 2 ^ 52 + countOf n d := rfl

theorem countOf_le (hd : 0 < d) (n : ℕ) : countOf n d ≤ 2 ^ 53 := by
  have hquotient : n / (d * 2 ^ shiftOf n d) < 2 ^ 53 := by
    rw [Nat.div_lt_iff_lt_mul (spacing_pos hd n), Nat.mul_comm]
    exact (isShift_shiftOf hd n).lt
  have hround := roundDiv_le n (d * 2 ^ shiftOf n d)
  rw [countOf]
  omega

theorem le_countOf (hd : 0 < d) (n : ℕ) : shiftOf n d = 0 ∨ 2 ^ 52 ≤ countOf n d := by
  refine (isShift_shiftOf hd n).ge.imp id fun hge => ?_
  calc 2 ^ 52 ≤ n / (d * 2 ^ shiftOf n d) := by
        rwa [Nat.le_div_iff_mul_le (spacing_pos hd n), Nat.mul_comm]
    _ ≤ countOf n d := div_le_roundDiv _ _

/-! ## Order -/

/-- A larger ratio has no smaller rank. -/
theorem nearestRank_mono (hd : 0 < d) (hd' : 0 < d') (h : n * d' ≤ n' * d) :
    nearestRank n d ≤ nearestRank n' d' := by
  have hshift : shiftOf n d ≤ shiftOf n' d' :=
    (isShift_shiftOf hd n).le (isShift_shiftOf hd' n') hd h
  rw [nearestRank_eq, nearestRank_eq]
  rcases hshift.eq_or_lt with heq | hlt
  · have hcount : countOf n d ≤ countOf n' d' := by
      rw [countOf, countOf, heq]
      refine roundDiv_mono (Nat.mul_pos hd (Nat.two_pow_pos _)) (spacing_pos hd' n') ?_
      rw [← Nat.mul_assoc, ← Nat.mul_assoc]
      exact Nat.mul_le_mul_right _ h
    rw [heq]
    exact Nat.add_le_add_left hcount _
  · -- the count of the lower binade ends where that of the next one begins
    have hupper := countOf_le hd n
    have hlower := (le_countOf hd' n').resolve_left (by omega)
    omega

/-- The rank depends on the ratio alone. -/
theorem nearestRank_mul_right (hc : 0 < c) (n d : ℕ) :
    nearestRank (n * c) (d * c) = nearestRank n d := by
  have hshift : shiftOf (n * c) (d * c) = shiftOf n d := by
    rw [shiftOf, shiftOf, Nat.mul_div_mul_right n d hc]
  rw [nearestRank_eq, nearestRank_eq, countOf, countOf, hshift, Nat.mul_right_comm,
    roundDiv_mul_right hc]

/-- Ratios far below the largest power of two have a finite magnitude. -/
theorem nearestRank_lt_rankCount (hd : 0 < d) {e : ℕ} (he : e ≤ 1023)
    (h : n < d * (unitsPerOne * 2 ^ e)) : nearestRank n d < rankCount := by
  have hcount := countOf_le hd n
  rw [unitsPerOne_eq, ← Nat.pow_add] at h
  rw [nearestRank_eq, rankCount_eq]
  rcases (isShift_shiftOf hd n).eq_zero_or_lt h with hzero | hexp
  · omega
  · rw [fractionDigits] at hexp
    omega

/-! ## Magnitudes -/

theorem unitsOfRank_mul_add (h : shift = 0 ∨ 2 ^ 52 ≤ k) (hk : k ≤ 2 ^ 53) :
    unitsOfRank (shift * 2 ^ 52 + k) = k * 2 ^ shift := by
  have heq : ∀ rank, unitsOfRank rank =
      (rank - (rank / 2 ^ 52 - 1) * 2 ^ 52) * 2 ^ (rank / 2 ^ 52 - 1) := fun _ => rfl
  rw [heq]
  rcases hk.eq_or_lt with rfl | hlt
  · have hdiv : (shift * 2 ^ 52 + 2 ^ 53) / 2 ^ 52 - 1 = shift + 1 := by omega
    have hrest : shift * 2 ^ 52 + 2 ^ 53 - (shift + 1) * 2 ^ 52 = 2 ^ 52 := by omega
    rw [hdiv, hrest]
    ring
  · have hdiv : (shift * 2 ^ 52 + k) / 2 ^ 52 - 1 = shift := by omega
    rw [hdiv, Nat.add_sub_cancel_left]

theorem unitsOfRank_nearestRank (hd : 0 < d) (n : ℕ) :
    unitsOfRank (nearestRank n d) = countOf n d * 2 ^ shiftOf n d := by
  rw [nearestRank_eq, unitsOfRank_mul_add (le_countOf hd n) (countOf_le hd n)]

theorem exists_shift_count (rank : ℕ) :
    ∃ shift k, rank = shift * 2 ^ 52 + k ∧ (shift = 0 ∨ 2 ^ 52 ≤ k) ∧ k < 2 ^ 53 := by
  refine ⟨rank / 2 ^ 52 - 1, rank - (rank / 2 ^ 52 - 1) * 2 ^ 52, ?_, ?_, ?_⟩ <;> omega

/-- The magnitudes grow with the ranks. -/
theorem unitsOfRank_lt_succ (rank : ℕ) : unitsOfRank rank < unitsOfRank (rank + 1) := by
  obtain ⟨shift, k, rfl, hge, hlt⟩ := exists_shift_count rank
  rw [Nat.add_assoc, unitsOfRank_mul_add hge hlt.le,
    unitsOfRank_mul_add (hge.imp id fun h => h.trans k.le_succ) hlt, Nat.succ_mul]
  exact Nat.lt_add_of_pos_right (Nat.two_pow_pos shift)

theorem unitsOfRank_strictMono : StrictMono unitsOfRank :=
  strictMono_nat_of_lt_succ unitsOfRank_lt_succ

/-- The error is at most half of the spacing. -/
theorem error_nearestRank (hd : 0 < d) (n : ℕ) :
    2 * (unitsOfRank (nearestRank n d) * d) ≤ 2 * n + d * 2 ^ shiftOf n d ∧
      2 * n ≤ 2 * (unitsOfRank (nearestRank n d) * d) + d * 2 ^ shiftOf n d := by
  have hunits : unitsOfRank (nearestRank n d) * d =
      roundDiv n (d * 2 ^ shiftOf n d) * (d * 2 ^ shiftOf n d) := by
    rw [unitsOfRank_nearestRank hd, countOf]
    ring
  rw [hunits]
  exact ⟨two_mul_roundDiv_mul_le n _, le_two_mul_roundDiv_mul (spacing_pos hd n) n⟩

/-- From 53 digits on, the error is at most half of one in the last digit. -/
theorem relativeError_nearestRank (hd : 0 < d) (h : d * 2 ^ 52 ≤ n) :
    unitsOfRank (nearestRank n d) * d * 2 ^ 53 ≤ n * (2 ^ 53 + 1) ∧
      n * 2 ^ 53 ≤ unitsOfRank (nearestRank n d) * d * 2 ^ 53 + n := by
  have hge : d * 2 ^ shiftOf n d * 2 ^ 52 ≤ n := by
    rcases (isShift_shiftOf hd n).ge with hzero | hge
    · rwa [hzero, Nat.pow_zero, Nat.mul_one]
    · exact hge
  obtain ⟨hupper, hlower⟩ := error_nearestRank hd n
  omega

theorem unitsOfRank_nearestRank_of_dvd (hd : 0 < d) (h : 2 ^ shiftOf (n * d) d ∣ n) :
    unitsOfRank (nearestRank (n * d) d) = n := by
  rw [unitsOfRank_nearestRank hd, countOf]
  generalize shiftOf (n * d) d = shift at h ⊢
  obtain ⟨k, rfl⟩ := h
  have hproduct : 2 ^ shift * k * d = k * (d * 2 ^ shift) := by ring
  rw [hproduct, roundDiv_mul_self (Nat.mul_pos hd (Nat.two_pow_pos _)), Nat.mul_comm]

/-- A magnitude with at most 53 digits before its trailing zeros is met exactly. -/
theorem unitsOfRank_nearestRank_mul (hd : 0 < d) (hm : m ≤ 2 ^ 53) (k : ℕ) :
    unitsOfRank (nearestRank (m * 2 ^ k * d) d) = m * 2 ^ k := by
  have hshift := isShift_shiftOf hd (m * 2 ^ k * d)
  refine unitsOfRank_nearestRank_of_dvd hd ?_
  generalize shiftOf (m * 2 ^ k * d) d = shift at hshift ⊢
  rcases Nat.lt_or_ge k shift with hlt | hle
  · -- only a power of two can have its digits counted from beyond its zeros on
    have hge : 2 ^ shift * 2 ^ 52 ≤ m * 2 ^ k := by
      have hge := hshift.ge.resolve_left (by omega)
      rw [Nat.mul_assoc, Nat.mul_comm _ d] at hge
      exact Nat.le_of_mul_le_mul_left hge hd
    have hpow : m = 2 ^ 53 := by
      refine hm.antisymm (Nat.le_of_mul_le_mul_right (c := 2 ^ k) ?_ (Nat.two_pow_pos k))
      calc 2 ^ 53 * 2 ^ k = 2 ^ (k + 1) * 2 ^ 52 := by ring
        _ ≤ 2 ^ shift * 2 ^ 52 := Nat.mul_le_mul_right _ (Nat.pow_le_pow_right (by decide) hlt)
        _ ≤ m * 2 ^ k := hge
    rw [hpow, ← Nat.pow_add]
    refine Nat.pow_dvd_pow 2 ((Nat.pow_le_pow_iff_right Nat.one_lt_two).mp ?_)
    calc 2 ^ shift ≤ 2 ^ shift * 2 ^ 52 := Nat.le_mul_of_pos_right _ (Nat.two_pow_pos 52)
      _ ≤ m * 2 ^ k := hge
      _ = 2 ^ (53 + k) := by rw [hpow, Nat.pow_add]
  · exact Nat.dvd_mul_left_of_dvd (Nat.pow_dvd_pow 2 hle) m

/-- A magnitude times a power of two is a magnitude, were there no largest one. -/
theorem unitsOfRank_nearestRank_pow_mul (e rank : ℕ) :
    unitsOfRank (nearestRank (2 ^ e * unitsOfRank rank) 1) = 2 ^ e * unitsOfRank rank := by
  obtain ⟨shift, k, rfl, hge, hlt⟩ := exists_shift_count rank
  have hexact := unitsOfRank_nearestRank_mul Nat.one_pos hlt.le (shift + e)
  have hproduct : k * 2 ^ (shift + e) = 2 ^ e * (k * 2 ^ shift) := by ring
  rwa [Nat.mul_one, hproduct, ← unitsOfRank_mul_add hge hlt.le] at hexact

/-- A magnitude has its own rank. -/
theorem nearestRank_unitsOfRank (rank : ℕ) : nearestRank (unitsOfRank rank) 1 = rank := by
  refine unitsOfRank_strictMono.injective ?_
  have hexact := unitsOfRank_nearestRank_pow_mul 0 rank
  rwa [Nat.pow_zero, Nat.one_mul] at hexact

end Binary64

end VisitGraph.Numeric
