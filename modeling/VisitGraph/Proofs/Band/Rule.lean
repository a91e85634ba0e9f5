import Mathlib.Algebra.Order.Ring.Abs
import Mathlib.Tactic.Linarith
import VisitGraph.Band
import VisitGraph.Proofs.Numeric.Rank

/-! # The rule of the bands

A call count gets the first band whose test succeeds. If all thresholds exist, this is a search for
the first element with a property, and without rounding the rule makes sense in any arithmetic. -/

namespace VisitGraph.Band

open Numeric

theorem firstOf_eq_find? {calls mean spread : Quantity} {p : Band → Bool}
    (h : ∀ b : Band, b.admits calls mean spread = .ok (p b)) (bands : List Band) :
    firstOf bands calls mean spread = .ok (bands.find? p) := by
  induction bands with
  | nil => rfl
  | cons b bands ih =>
      rw [firstOf, h b, List.find?_cons]
      cases p b with
      | true => rfl
      | false => exact ih

/-! ## Without rounding -/

section

variable {α : Type} [IntCast α] [Add α] [Sub α] [Mul α] [LT α] [DecidableLT α]

/-- Where the band begins in any arithmetic. -/
def limit (b : Band) (mean spread : α) : α :=
  if b.isAbove then mean + b.reach * spread else mean - b.reach * spread

/-- Whether a call count lies beyond the limit of the band. -/
def beyond (b : Band) (calls mean spread : α) : Bool :=
  if b.isAbove then b.limit mean spread < calls else calls < b.limit mean spread

/-- The band of a call count in any arithmetic. -/
def ofCalls (calls mean spread : α) : Option Band :=
  all.find? (·.beyond calls mean spread)

end

theorem lt_int (m n : ℤ) : (Quantity.int m).lt (.int n) = decide (m < n) := by
  have hunits : (0 : ℤ) < unitsPerOne := by exact_mod_cast unitsPerOne_pos
  simp only [Quantity.lt, Quantity.place?, lt_self_iff_false, decide_false, Bool.false_or,
    beq_self_eq_true, Bool.true_and, mul_lt_mul_iff_left₀ hunits]

theorem admits_int (b : Band) (calls mean spread : ℤ) :
    b.admits (.int calls) (.int mean) (.int spread) = .ok (b.beyond calls mean spread) := by
  cases habove : b.isAbove <;>
    simp only [admits, threshold, beyond, limit, habove, if_true, if_false, Bool.false_eq_true] <;>
    exact congrArg Except.ok (lt_int _ _)

/-- Integers are not rounded: on them, the rule that runs is the exact one. -/
theorem classify_int (calls mean spread : ℤ) :
    classify (.int calls) (.int mean) (.int spread) = .ok (ofCalls calls mean spread) :=
  firstOf_eq_find? (admits_int · calls mean spread) all

section

variable {b : Band} {R : Type} [CommRing R] [LinearOrder R] {calls mean spread : R}

theorem beyond_of_ofCalls (h : ofCalls calls mean spread = some b) :
    (b.isAbove = true → mean + b.reach * spread < calls) ∧
      (b.isAbove = false → calls < mean - b.reach * spread) := by
  have hbeyond := List.find?_some h
  constructor
  · intro habove
    simpa only [beyond, limit, habove, if_true, decide_eq_true_eq] using hbeyond
  · intro hbelow
    simpa only [beyond, limit, hbelow, if_false, Bool.false_eq_true, decide_eq_true_eq]
      using hbeyond

variable [IsStrictOrderedRing R]

/-- What falls into a band is farther from the mean than the band reaches. -/
theorem reach_mul_lt_of_ofCalls (h : ofCalls calls mean spread = some b) :
    b.reach * spread < |calls - mean| := by
  obtain ⟨habove, hbelow⟩ := beyond_of_ofCalls h
  cases hside : b.isAbove with
  | true => exact lt_abs.mpr (.inl (lt_sub_iff_add_lt'.mpr (habove hside)))
  | false => exact lt_abs.mpr (.inr (by linarith [hbelow hside]))

/-- What falls into a band is more than one spread away from the mean. -/
theorem spread_lt_of_ofCalls (h : ofCalls calls mean spread = some b) (hspread : 0 ≤ spread) :
    (b.isAbove = true → mean + spread < calls) ∧ (b.isAbove = false → calls < mean - spread) := by
  obtain ⟨habove, hbelow⟩ := beyond_of_ofCalls h
  have hreach : spread ≤ b.reach * spread := by
    have hone : (1 : R) ≤ b.reach := by cases b <;> norm_num [reach]
    exact le_mul_of_one_le_left hspread hone
  exact ⟨fun hside => by linarith [habove hside], fun hside => by linarith [hbelow hside]⟩

end

end VisitGraph.Band
