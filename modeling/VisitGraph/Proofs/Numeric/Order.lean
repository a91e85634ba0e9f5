import Mathlib.Data.Prod.Lex
import VisitGraph.Numeric.Quantity
import VisitGraph.Proofs.Numeric.Whole

/-! # The order of numbers

All numbers but one lie in one order, in which integers and floating point numbers are compared
exactly. Rounding keeps the order, infinities included, so a sum grows with what is added. -/

namespace VisitGraph.Numeric

/-! ## Exact comparison -/

namespace Quantity

/-- Whether the first number is exactly at most the second. -/
def le (a b : Quantity) : Bool :=
  match a.place?, b.place? with
  | some (i, x), some (j, y) => i < j || (i == j && x ≤ y)
  | _, _ => false

variable {a b c : Quantity}

theorem lt_eq_true_iff : a.lt b = true ↔
    ∃ p q, a.place? = some p ∧ b.place? = some q ∧ toLex p < toLex q := by
  rw [lt]
  cases a.place? <;> cases b.place? <;> simp [Prod.Lex.toLex_lt_toLex]

theorem le_eq_true_iff : a.le b = true ↔
    ∃ p q, a.place? = some p ∧ b.place? = some q ∧ toLex p ≤ toLex q := by
  rw [le]
  cases a.place? <;> cases b.place? <;> simp [Prod.Lex.toLex_le_toLex]

theorem lt_of_lt_of_le (h : a.lt b = true) (h' : b.le c = true) : a.lt c = true := by
  obtain ⟨p, q, hp, hq, hlt⟩ := lt_eq_true_iff.mp h
  obtain ⟨q', r, hq', hr, hle⟩ := le_eq_true_iff.mp h'
  obtain rfl := Option.some.inj (hq.symm.trans hq')
  exact lt_eq_true_iff.mpr ⟨p, r, hp, hr, hlt.trans_le hle⟩

theorem lt_of_le_of_lt (h : a.le b = true) (h' : b.lt c = true) : a.lt c = true := by
  obtain ⟨p, q, hp, hq, hle⟩ := le_eq_true_iff.mp h
  obtain ⟨q', r, hq', hr, hlt⟩ := lt_eq_true_iff.mp h'
  obtain rfl := Option.some.inj (hq.symm.trans hq')
  exact lt_eq_true_iff.mpr ⟨p, r, hp, hr, hle.trans_lt hlt⟩

theorem lt_asymm (h : a.lt b = true) : ¬ b.lt a = true := by
  intro h'
  obtain ⟨p, q, hp, hq, hlt⟩ := lt_eq_true_iff.mp h
  obtain ⟨q', p', hq', hp', hlt'⟩ := lt_eq_true_iff.mp h'
  obtain rfl := Option.some.inj (hp.symm.trans hp')
  obtain rfl := Option.some.inj (hq.symm.trans hq')
  exact hlt.asymm hlt'

/-- The number has a place in the order. -/
def IsNumber (a : Quantity) : Prop :=
  ∃ p, a.place? = some p

theorem isNumber_of_lt (h : a.lt b = true) : a.IsNumber ∧ b.IsNumber := by
  obtain ⟨p, q, hp, hq, -⟩ := lt_eq_true_iff.mp h
  exact ⟨⟨p, hp⟩, ⟨q, hq⟩⟩

theorem le_int (m n : ℤ) : (int m).le (int n) = decide (m ≤ n) := by
  have hunits : (0 : ℤ) < unitsPerOne := by exact_mod_cast unitsPerOne_pos
  simp only [le, place?, lt_self_iff_false, decide_false, Bool.false_or, beq_self_eq_true,
    Bool.true_and, mul_le_mul_iff_left₀ hunits]

end Quantity

/-! ## Keys -/

namespace Binary64

variable {x y z : Binary64} {i j : ℤ} {n d : ℕ}

/-- A rank with a sign. -/
def signedRank (negative : Bool) (rank : ℕ) : ℤ :=
  if negative then -(rank : ℤ) else rank

/-- The rank with its sign; the infinities come one step beyond the largest ranks. -/
def key? : Binary64 → Option ℤ
  | nan => none
  | infinity negative => some (signedRank negative rankCount)
  | finite negative rank => some (signedRank negative rank)

theorem exists_key_of_isNumber (h : (Quantity.real x).IsNumber) : ∃ k, x.key? = some k := by
  cases x with
  | nan =>
      obtain ⟨p, hp⟩ := h
      cases hp
  | infinity negative => exact ⟨_, rfl⟩
  | finite negative rank => exact ⟨_, rfl⟩

theorem signedUnits_le_iff {negative negative' : Bool} {rank rank' : ℕ} :
    signedUnits negative rank ≤ signedUnits negative' rank' ↔
      signedRank negative rank ≤ signedRank negative' rank' := by
  have hpos : ∀ rank, 0 < rank ↔ 0 < unitsOfRank rank := fun rank =>
    (unitsOfRank_strictMono.lt_iff_lt (a := 0)).symm
  have hrank := hpos rank
  have hrank' := hpos rank'
  have hle := unitsOfRank_strictMono.le_iff_le (a := rank) (b := rank')
  have hle' := unitsOfRank_strictMono.le_iff_le (a := rank') (b := rank)
  rw [signedUnits, signedUnits, signedRank, signedRank]
  split_ifs <;> omega

theorem key?_infinity (negative : Bool) :
    (infinity negative).key? = some (signedRank negative rankCount) := rfl

theorem key?_finite (negative : Bool) (rank : Fin rankCount) :
    (finite negative rank).key? = some (signedRank negative rank) := rfl

theorem signedRank_not (negative : Bool) (rank : ℕ) :
    signedRank (!negative) rank = -signedRank negative rank := by
  cases negative with
  | false => rfl
  | true => exact (Int.neg_neg _).symm

theorem key?_neg (x : Binary64) : (neg x).key? = x.key?.map (- ·) := by
  cases x with
  | nan => rfl
  | infinity negative => rw [neg, key?_infinity, signedRank_not]; rfl
  | finite negative rank => rw [neg, key?_finite, signedRank_not]; rfl

theorem signedRank_zero (negative : Bool) : signedRank negative 0 = 0 := by
  cases negative <;> rfl

theorem signedRank_eq_or (negative : Bool) (rank : ℕ) :
    signedRank negative rank = rank ∨ signedRank negative rank = -rank := by
  cases negative with
  | false => exact .inl rfl
  | true => exact .inr rfl

theorem signedRank_lt (negative : Bool) (rank : Fin rankCount) :
    -(rankCount : ℤ) < signedRank negative rank ∧ signedRank negative rank < rankCount := by
  have hrank := rank.isLt
  rw [signedRank]
  split_ifs <;> omega

/-- Only the negative infinity is below a finite number. -/
theorem eq_true_of_infinity_le {a b : Bool} (rank : Fin rankCount)
    (h : signedRank a rankCount ≤ signedRank b rank) : a = true := by
  have hrank := signedRank_lt b rank
  by_contra hfalse
  rw [signedRank, if_neg hfalse] at h
  omega

/-- Only the positive infinity is above a finite number. -/
theorem eq_false_of_le_infinity {a b : Bool} (rank : Fin rankCount)
    (h : signedRank b rank ≤ signedRank a rankCount) : a = false := by
  have hneg : signedRank (!a) rankCount ≤ signedRank (!b) rank := by
    rw [signedRank_not, signedRank_not]
    exact Int.neg_le_neg h
  simpa using eq_true_of_infinity_le rank hneg

/-- Numbers are in the order of their keys. -/
theorem le_of_key (hx : x.key? = some i) (hy : y.key? = some j) (h : i ≤ j) :
    (Quantity.real x).le (.real y) = true := by
  rw [Quantity.le_eq_true_iff]
  cases x with
  | nan => cases hx
  | infinity a =>
      obtain rfl := Option.some.inj hx
      cases y with
      | nan => cases hy
      | infinity b =>
          obtain rfl := Option.some.inj hy
          refine ⟨_, _, rfl, rfl, Prod.Lex.toLex_le_toLex.mpr ?_⟩
          revert h
          cases a <;> cases b <;> decide
      | finite b rank =>
          obtain rfl := Option.some.inj hy
          obtain rfl := eq_true_of_infinity_le rank h
          exact ⟨_, _, rfl, rfl, Prod.Lex.toLex_le_toLex.mpr (.inl (show (-1 : ℤ) < 0 by decide))⟩
  | finite a rank =>
      obtain rfl := Option.some.inj hx
      cases y with
      | nan => cases hy
      | infinity b =>
          obtain rfl := Option.some.inj hy
          obtain rfl := eq_false_of_le_infinity rank h
          exact ⟨_, _, rfl, rfl, Prod.Lex.toLex_le_toLex.mpr (.inl (show (0 : ℤ) < 1 by decide))⟩
      | finite b rank' =>
          obtain rfl := Option.some.inj hy
          exact ⟨_, _, rfl, rfl,
            Prod.Lex.toLex_le_toLex.mpr (.inr ⟨rfl, signedUnits_le_iff.mpr h⟩)⟩

theorem zero_le_of_key (hx : x.key? = some i) (h : 0 ≤ i) :
    (Quantity.int 0).le (.real x) = true := by
  rw [Quantity.le_eq_true_iff]
  cases x with
  | nan => cases hx
  | infinity a =>
      obtain rfl := Option.some.inj hx
      refine ⟨_, _, rfl, rfl, Prod.Lex.toLex_le_toLex.mpr (.inl ?_)⟩
      revert h
      cases a <;> decide
  | finite a rank =>
      obtain rfl := Option.some.inj hx
      rw [← signedRank_zero false, ← signedUnits_le_iff] at h
      exact ⟨_, _, rfl, rfl, Prod.Lex.toLex_le_toLex.mpr (.inr ⟨rfl, by rwa [Int.zero_mul]⟩)⟩

/-! ## Rounding in order -/

theorem key?_ofUnits (negative : Bool) (n d : ℕ) : (ofUnits negative n d).key? =
    some (signedRank negative (min (nearestRank n d) rankCount)) := by
  simp only [ofUnits]
  split
  case isTrue h => rw [key?_finite, min_eq_left h.le]
  case isFalse h => rw [key?_infinity, min_eq_right (not_lt.mp h)]

theorem nearestRank_zero : nearestRank 0 1 = 0 :=
  nearestRank_unitsOfRank 0

/-- The key of the number nearest to a sum of signed units. -/
def roundedKey (units : ℤ) : ℤ :=
  signedRank (units < 0) (min (nearestRank units.natAbs 1) rankCount)

theorem roundedKey_mono {u v : ℤ} (h : u ≤ v) : roundedKey u ≤ roundedKey v := by
  have hrank : ∀ m n : ℕ, m ≤ n →
      min (nearestRank m 1) rankCount ≤ min (nearestRank n 1) rankCount := fun m n hle =>
    min_le_min_right _ (nearestRank_mono Nat.one_pos Nat.one_pos (Nat.mul_le_mul_right 1 hle))
  have hup := hrank u.natAbs v.natAbs
  have hdown := hrank v.natAbs u.natAbs
  simp only [roundedKey, signedRank, decide_eq_true_eq]
  split_ifs <;> omega

theorem roundedKey_le (units : ℤ) :
    -(rankCount : ℤ) ≤ roundedKey units ∧ roundedKey units ≤ rankCount := by
  have hmin := min_le_right (nearestRank units.natAbs 1) rankCount
  rcases signedRank_eq_or (units < 0) (min (nearestRank units.natAbs 1) rankCount) with h | h <;>
    rw [roundedKey, h] <;> omega

theorem key?_add_finite (a b : Bool) (i j : Fin rankCount) :
    (add (finite a i) (finite b j)).key? =
      some (roundedKey (signedUnits a i + signedUnits b j)) := by
  rw [add]
  split_ifs with hsum
  · rw [zero, key?_ofUnits, hsum, roundedKey, Int.natAbs_zero, nearestRank_zero, Nat.zero_min,
      signedRank_zero, signedRank_zero]
  · rw [key?_ofUnits, roundedKey]

/-- An infinity stays what it is, unless there is no sum. -/
theorem key_infinity_add {a : Bool} {k : ℤ} (hk : (add (infinity a) y).key? = some k) :
    k = signedRank a rankCount := by
  cases y with
  | nan => cases hk
  | finite b rank => exact (Option.some.inj hk).symm
  | infinity b =>
      rw [add] at hk
      split_ifs at hk
      · exact (Option.some.inj hk).symm
      · cases hk

/-- A larger number that is added gives no smaller sum. -/
theorem add_mono {k l : ℤ} (hy : y.key? = some i) (hz : z.key? = some j) (h : i ≤ j)
    (hk : (add x y).key? = some k) (hl : (add x z).key? = some l) : k ≤ l := by
  cases x with
  | nan => cases y <;> cases hk
  | infinity a => exact ((key_infinity_add hk).trans (key_infinity_add hl).symm).le
  | finite a rank =>
      cases y with
      | nan => cases hy
      | infinity b =>
          obtain rfl := Option.some.inj hy
          obtain rfl := Option.some.inj hk
          cases z with
          | nan => cases hz
          | infinity c => exact h.trans_eq (Option.some.inj (hz.symm.trans hl))
          | finite c rank' =>
              obtain rfl := Option.some.inj hz
              rw [key?_add_finite] at hl
              obtain rfl := Option.some.inj hl
              obtain rfl := eq_true_of_infinity_le rank' h
              exact (roundedKey_le _).1
      | finite b rank' =>
          obtain rfl := Option.some.inj hy
          rw [key?_add_finite] at hk
          obtain rfl := Option.some.inj hk
          cases z with
          | nan => cases hz
          | infinity c =>
              obtain rfl := Option.some.inj hz
              obtain rfl := Option.some.inj hl
              obtain rfl := eq_false_of_le_infinity rank' h
              exact (roundedKey_le _).2
          | finite c rank'' =>
              obtain rfl := Option.some.inj hz
              rw [key?_add_finite] at hl
              obtain rfl := Option.some.inj hl
              exact roundedKey_mono (Int.add_le_add_left (signedUnits_le_iff.mpr h) _)

/-! ## Rounded sums beside integers -/

variable {m : ℤ} {a b : Bool} {r s : Fin rankCount}

theorem key?_ofInt (m : ℤ) : (ofInt m).key? = some (roundedKey (m * unitsPerOne)) := by
  rw [ofInt, ofRatio, key?_ofUnits, roundedKey, Int.natAbs_mul, Int.natAbs_natCast]
  simp only [mul_unitsPerOne_neg_iff]

theorem place?_ofInt (hm : m.natAbs ≤ 2 ^ 53) :
    (Quantity.real (ofInt m)).place? = (Quantity.int m).place? := by
  obtain ⟨rank, hrank⟩ := exists_holds_ofInt hm
  have hplace : ∀ negative, (Quantity.real (finite negative rank)).place? =
      some (0, signedUnits negative rank) := fun _ => rfl
  rw [hrank.eq_finite, hplace, hrank.signedUnits_eq, Quantity.place?]

/-- An integer above a rounded sum is above the exact one. -/
theorem add_lt_of_lt_int (hm : m.natAbs ≤ 2 ^ 53)
    (h : (Quantity.real (add (finite a r) (finite b s))).lt (.int m) = true) :
    signedUnits a r + signedUnits b s < m * unitsPerOne := by
  by_contra! hle
  have hback := le_of_key (key?_ofInt m) (key?_add_finite a b r s) (roundedKey_mono hle)
  rw [Quantity.lt, ← place?_ofInt hm, ← Quantity.lt] at h
  exact Quantity.lt_asymm (Quantity.lt_of_lt_of_le h hback) (Quantity.lt_of_lt_of_le h hback)

/-- An integer below a rounded sum is below the exact one. -/
theorem lt_add_of_int_lt (hm : m.natAbs ≤ 2 ^ 53)
    (h : (Quantity.int m).lt (.real (add (finite a r) (finite b s))) = true) :
    m * unitsPerOne < signedUnits a r + signedUnits b s := by
  by_contra! hle
  have hback := le_of_key (key?_add_finite a b r s) (key?_ofInt m) (roundedKey_mono hle)
  rw [Quantity.lt, ← place?_ofInt hm, ← Quantity.lt] at h
  exact Quantity.lt_asymm (Quantity.lt_of_le_of_lt hback h) (Quantity.lt_of_le_of_lt hback h)

end Binary64

end VisitGraph.Numeric
