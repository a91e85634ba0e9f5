import VisitGraph.Proofs.Numeric.Order
import VisitGraph.Proofs.Statistics.Counting

/-! # Thresholds of bands

Where the spread is not negative, the thresholds exist together or not at all, and they lie in the
order of the bands: rounding and overflow do not bring the threshold of a lower band above that of a
higher one. -/

namespace VisitGraph

open Numeric

/-! ## Distances from the mean -/

namespace Numeric

variable {x : Binary64} {n : ℤ}

/-- The multiples of a distance grow with the factor and are not negative. -/
structure Multiples (distance : ℕ → Binary64) (key : ℕ → ℤ) : Prop where
  mono : ∀ factor factor', factor ≤ factor' → key factor ≤ key factor'
  nonneg : ∀ factor, 0 ≤ key factor
  key_eq : ∀ factor, 0 < factor → factor ≤ 2 ^ 53 → (distance factor).key? = some (key factor)

namespace Binary64

/-- The key of a magnitude, whatever the sign of zero. -/
def magnitudeKey (units : ℕ) : ℤ :=
  (min (nearestRank units 1) rankCount : ℕ)

theorem magnitudeKey_mono {units units' : ℕ} (h : units ≤ units') :
    magnitudeKey units ≤ magnitudeKey units' := by
  refine Int.ofNat_le.mpr (min_le_min_right _ (nearestRank_mono Nat.one_pos Nat.one_pos ?_))
  exact Nat.mul_le_mul_right 1 h

theorem key?_ofUnits_nonneg (units : ℕ) :
    (ofUnits false units 1).key? = some (magnitudeKey units) :=
  key?_ofUnits false units 1

theorem multiples_ofInt (hn : 0 ≤ n) :
    Multiples (fun factor => ofInt (factor * n)) fun factor =>
      magnitudeKey (factor * n.natAbs * unitsPerOne) where
  mono _ _ h :=
    magnitudeKey_mono (Nat.mul_le_mul_right _ (Nat.mul_le_mul_right _ h))
  nonneg factor := Int.natCast_nonneg _
  key_eq factor _ _ := by
    have hsign : decide ((factor : ℤ) * n < 0) = false :=
      decide_eq_false (Int.mul_nonneg (Int.natCast_nonneg _) hn).not_gt
    rw [ofInt, ofRatio, hsign, Int.natAbs_mul, Int.natAbs_natCast, key?_ofUnits_nonneg]

theorem nonneg_of_zero_le {negative : Bool} {rank : Fin rankCount}
    (h : (Quantity.int 0).le (.real (finite negative rank)) = true) :
    negative = false ∨ unitsOfRank rank = 0 := by
  obtain ⟨p, q, hp, hq, hle⟩ := Quantity.le_eq_true_iff.mp h
  obtain rfl := Option.some.inj hp
  obtain rfl := Option.some.inj hq
  rw [Prod.Lex.toLex_le_toLex, Int.zero_mul] at hle
  have hunits : 0 ≤ signedUnits negative rank := by
    rcases hle with hlt | ⟨-, hle⟩
    · exact absurd hlt (Int.lt_irrefl 0)
    · exact hle
  rw [signedUnits] at hunits
  cases negative with
  | false => exact .inl rfl
  | true =>
      rw [if_pos rfl] at hunits
      exact .inr (by omega)

theorem mul_ofInt_finite {factor : ℕ} (hle : factor ≤ 2 ^ 53) (negative : Bool)
    (rank : Fin rankCount) :
    mul (ofInt factor) (finite negative rank) = ofUnits negative (factor * unitsOfRank rank) 1 := by
  obtain ⟨rank', hrank'⟩ := exists_holds_ofInt (n := factor) (by simpa using hle)
  have hproduct : unitsOfRank rank' * unitsOfRank rank =
      factor * unitsOfRank rank * unitsPerOne := by
    rw [hrank'.units, Int.natAbs_natCast]
    ring
  rw [hrank'.eq_finite, mul, hproduct, ofUnits_mul_self unitsPerOne_pos,
    decide_eq_false (Int.natCast_nonneg _).not_gt, Bool.false_bne]

theorem exists_multiples_mul (h : (Quantity.int 0).le (.real x) = true) :
    ∃ key, Multiples (fun factor => mul (ofInt factor) x) key := by
  cases x with
  | nan => cases h
  | infinity negative =>
      have hfalse : negative = false := by
        cases negative with
        | false => rfl
        | true => cases h
      subst hfalse
      refine ⟨fun _ => rankCount, fun _ _ _ => Int.le_refl _, fun _ => Int.natCast_nonneg _, ?_⟩
      intro factor hpos hle
      obtain ⟨rank, hrank⟩ := exists_holds_ofInt (n := factor) (by simpa using hle)
      have hunits : unitsOfRank rank ≠ 0 := by
        rw [hrank.units, Int.natAbs_natCast]
        exact (Nat.mul_pos hpos unitsPerOne_pos).ne'
      rw [hrank.eq_finite, mul, if_neg hunits, decide_eq_false (Int.natCast_nonneg _).not_gt]
      rfl
  | finite negative rank =>
      refine ⟨fun factor => magnitudeKey (factor * unitsOfRank rank),
        fun _ _ h => magnitudeKey_mono (Nat.mul_le_mul_right _ h),
        fun _ => Int.natCast_nonneg _, ?_⟩
      intro factor _ hle
      rw [mul_ofInt_finite hle]
      rcases nonneg_of_zero_le h with rfl | hzero
      · exact key?_ofUnits_nonneg _
      · rw [hzero, Nat.mul_zero, key?_ofUnits, nearestRank_zero, Nat.zero_min, signedRank_zero,
          magnitudeKey, nearestRank_zero, Nat.zero_min, Nat.cast_zero]

/-- An integer has a floating point number near it if its rank is finite. -/
theorem toReal_int_eq_ok {x : Binary64} :
    (Quantity.int n).toReal = .ok x ↔
      nearestRank (n.natAbs * unitsPerOne) 1 < rankCount ∧ x = ofInt n := by
  rcases Nat.lt_or_ge (nearestRank (n.natAbs * unitsPerOne) 1) rankCount with hlt | hge
  · rw [Quantity.toReal, ofInt?_of_lt hlt, Except.ok.injEq]
    exact ⟨fun h => ⟨hlt, h.symm⟩, fun h => h.2.symm⟩
  · rw [Quantity.toReal, ofInt?_of_not_lt hge.not_gt]
    exact iff_of_false (fun h => by cases h) fun h => hge.not_gt h.1

end Binary64

namespace Quantity

variable {a b c : Quantity}

/-- If one operand is a floating point number, both are converted. -/
theorem combine_of_real (h : (∃ x, a = .real x) ∨ ∃ x, b = .real x) (exact : ℤ → ℤ → ℤ)
    (rounded : Binary64 → Binary64 → Binary64) : combine exact rounded a b =
      a.toReal >>= fun x => b.toReal >>= fun y => .ok (.real (rounded x y)) := by
  rcases h with ⟨x, rfl⟩ | ⟨x, rfl⟩
  · rfl
  · cases a <;> rfl

theorem combine_eq_ok {x y : Binary64} (ha : a.toReal = .ok x) (hb : b.toReal = .ok y)
    (h : (∃ x, a = .real x) ∨ ∃ x, b = .real x) (exact : ℤ → ℤ → ℤ)
    (rounded : Binary64 → Binary64 → Binary64) :
    combine exact rounded a b = .ok (.real (rounded x y)) := by
  rw [combine_of_real h, ha, hb]
  rfl

theorem exists_toReal_of_combine {exact : ℤ → ℤ → ℤ} {rounded : Binary64 → Binary64 → Binary64}
    (h : (∃ x, a = .real x) ∨ ∃ x, b = .real x) (hc : combine exact rounded a b = .ok c) :
    (∃ x, a.toReal = .ok x) ∧ ∃ y, b.toReal = .ok y := by
  rw [combine_of_real h] at hc
  obtain ⟨x, hx, hc⟩ := bind_eq_ok.mp hc
  obtain ⟨y, hy, -⟩ := bind_eq_ok.mp hc
  exact ⟨⟨x, hx⟩, y, hy⟩

end Quantity

end Numeric

namespace Band

variable {mean spread : Quantity}

/-- How far from the mean the band lies, the bands below it being negative. -/
def side (b : Band) : ℤ :=
  if b.isAbove then b.reach else -b.reach

/-- Thresholds for all bands, in the order of the bands as far as they are numbers. -/
structure Thresholds (mean spread : Quantity) (limit : Band → Quantity) : Prop where
  threshold_eq : ∀ b : Band, b.threshold mean spread = .ok (limit b)
  le_of_side : ∀ b b' : Band, b.side ≤ b'.side → (limit b).IsNumber → (limit b').IsNumber →
    (limit b).le (limit b') = true

theorem thresholds_int (m : ℤ) {n : ℤ} (hn : 0 ≤ n) :
    Thresholds (.int m) (.int n) fun b => .int (m + b.side * n) where
  threshold_eq b := by
    cases b <;> simp [threshold, side, reach, isAbove, Quantity.mul, Quantity.add, Quantity.sub,
      Quantity.combine, bind, Except.bind, sub_eq_add_neg]
  le_of_side b b' h _ _ := by
    rw [Quantity.le_int, decide_eq_true_eq]
    exact Int.add_le_add_left (Int.mul_le_mul_of_nonneg_right h hn) m

/-- The threshold in floating point: the mean with the distance added or taken away. -/
def roundedLimit (m : Binary64) (distance : ℕ → Binary64) (b : Band) : Binary64 :=
  m.add (if b.isAbove then distance b.reach.natAbs else (distance b.reach.natAbs).neg)

theorem thresholds_real {m : Binary64} {distance : ℕ → Binary64} {key : ℕ → ℤ}
    (hmean : mean.toReal = .ok m) (hkey : Multiples distance key)
    (hdistance : ∀ b : Band, ∃ q, (Quantity.int b.reach).mul spread = .ok q ∧
      q.toReal = .ok (distance b.reach.natAbs) ∧ ((∃ x, mean = .real x) ∨ ∃ x, q = .real x)) :
    Thresholds mean spread fun b => .real (roundedLimit m distance b) where
  threshold_eq b := by
    obtain ⟨q, hq, hreal, hmixed⟩ := hdistance b
    have hcombine := Quantity.combine_eq_ok hmean hreal hmixed
    simp only [threshold, bind_eq_ok, hq, Except.ok.injEq, exists_eq_left', roundedLimit]
    cases b.isAbove with
    | true => exact hcombine _ _
    | false => exact hcombine _ _
  le_of_side b b' h hb hb' := by
    have hoffset : ∀ b : Band, (if b.isAbove then distance b.reach.natAbs
        else (distance b.reach.natAbs).neg).key? =
          some (if b.isAbove then key b.reach.natAbs else -key b.reach.natAbs) := fun b => by
      have hdistance := hkey.key_eq b.reach.natAbs (by cases b <;> decide) (by cases b <;> decide)
      cases b.isAbove with
      | true => exact hdistance
      | false =>
          rw [if_neg Bool.false_ne_true, if_neg Bool.false_ne_true, Binary64.key?_neg, hdistance]
          rfl
    have hle : (if b.isAbove then key b.reach.natAbs else -key b.reach.natAbs) ≤
        if b'.isAbove then key b'.reach.natAbs else -key b'.reach.natAbs := by
      have hmono : key 1 ≤ key 2 := hkey.mono 1 2 (by decide)
      have hone := hkey.nonneg 1
      cases b <;> cases b' <;> simp [side, reach, isAbove] at h ⊢ <;> omega
    obtain ⟨k, hk⟩ := Binary64.exists_key_of_isNumber hb
    obtain ⟨l, hl⟩ := Binary64.exists_key_of_isNumber hb'
    exact Binary64.le_of_key hk hl (Binary64.add_mono (hoffset b) (hoffset b') hle hk hl)

theorem exists_toReal_of_threshold {limit distance : Quantity}
    (h : farHigh.threshold mean spread = .ok limit)
    (hdistance : (Quantity.int 2).mul spread = .ok distance)
    (hreal : (∃ x, mean = .real x) ∨ ∃ x, distance = .real x) :
    (∃ m, mean.toReal = .ok m) ∧ ∃ x, distance.toReal = .ok x := by
  simp only [threshold, reach, hdistance, bind_eq_ok, Except.ok.injEq, exists_eq_left'] at h
  exact Quantity.exists_toReal_of_combine hreal h

theorem mul_real (b : Band) (x : Binary64) : (Quantity.int b.reach).mul (.real x) =
    .ok (.real (.mul (.ofInt b.reach.natAbs) x)) := by
  have hreach : (Quantity.int b.reach).toReal = .ok (.ofInt b.reach.natAbs) := by
    cases b <;> exact Spread.toReal_int (by decide)
  exact Quantity.combine_eq_ok hreach rfl (.inr ⟨x, rfl⟩) _ _

theorem thresholds_rounded {m x : Binary64} (hmean : mean.toReal = .ok m)
    (hspread : (Quantity.int 0).le (.real x) = true) :
    Thresholds mean (.real x) fun b =>
      .real (roundedLimit m (fun factor => .mul (.ofInt factor) x) b) := by
  obtain ⟨key, hkey⟩ := Binary64.exists_multiples_mul hspread
  exact thresholds_real hmean hkey fun b => ⟨_, mul_real b x, rfl, .inr ⟨_, rfl⟩⟩

/-- If the first threshold that is tried exists, they all do. -/
theorem exists_thresholds {limit : Quantity} (hspread : (Quantity.int 0).le spread = true)
    (h : farHigh.threshold mean spread = .ok limit) : ∃ limit, Thresholds mean spread limit := by
  cases spread with
  | real x =>
      obtain ⟨⟨m, hm⟩, -⟩ := exists_toReal_of_threshold h (mul_real farHigh x) (.inr ⟨_, rfl⟩)
      exact ⟨_, thresholds_rounded hm hspread⟩
  | int n =>
      rw [Quantity.le_int, decide_eq_true_eq] at hspread
      cases mean with
      | int m => exact ⟨_, thresholds_int m hspread⟩
      | real x =>
          obtain ⟨-, y, hy⟩ := exists_toReal_of_threshold h rfl (.inl ⟨x, rfl⟩)
          have hfar := (Binary64.toReal_int_eq_ok.mp hy).1
          refine ⟨_, thresholds_real rfl (Binary64.multiples_ofInt hspread) fun b =>
            ⟨_, rfl, ?_, .inl ⟨x, rfl⟩⟩⟩
          -- the distance to a nearer threshold is no larger
          refine Binary64.toReal_int_eq_ok.mpr ⟨lt_of_le_of_lt ?_ hfar, by cases b <;> rfl⟩
          refine Binary64.nearestRank_mono Nat.one_pos Nat.one_pos (Nat.mul_le_mul_right 1
            (Nat.mul_le_mul_right _ ?_))
          cases b <;> simp only [reach] <;> omega

end Band

end VisitGraph
