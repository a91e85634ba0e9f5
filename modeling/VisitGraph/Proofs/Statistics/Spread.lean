import Mathlib.Algebra.BigOperators.Fin
import Mathlib.Algebra.Order.BigOperators.Group.List
import Mathlib.Algebra.Order.Chebyshev
import VisitGraph.Proofs.Numeric.Overflow
import VisitGraph.Proofs.Outcome
import VisitGraph.Spread

/-! # Mean and spread of integers

The sums over integers are exact as long as the squares add up to at most 53 binary digits. Under
the root, the sum of squares is divided by one less than the number of values; this exceeds the
square of the mean by more than the roundings can take away. -/

namespace VisitGraph.Spread

open Numeric Binary64

variable {xs : List ℤ}

/-- The sum of the squares of the magnitudes. -/
def squares (xs : List ℤ) : ℕ :=
  (xs.map fun x => x.natAbs * x.natAbs).sum

/-- At least two integers, few and small enough for their sums to be exact. -/
structure Exact (xs : List ℤ) : Prop where
  two_le : 2 ≤ xs.length
  length_le : xs.length ≤ 2 ^ 52
  squares_le : squares xs ≤ 2 ^ 53

/-! ## Sums -/

theorem sum_natAbs_le_squares (xs : List ℤ) : (xs.map Int.natAbs).sum ≤ squares xs :=
  List.sum_le_sum fun x _ => Nat.le_mul_self x.natAbs

theorem natAbs_sum_le (xs : List ℤ) : xs.sum.natAbs ≤ (xs.map Int.natAbs).sum := by
  induction xs with
  | nil => simp
  | cons x xs ih =>
      rw [List.sum_cons, List.map_cons, List.sum_cons]
      exact (Int.natAbs_add_le x xs.sum).trans (Nat.add_le_add_left ih _)

theorem natAbs_le_of_mem {x : ℤ} (h : x ∈ xs) : x.natAbs ≤ squares xs :=
  (List.single_le_sum (by simp) _ (List.mem_map_of_mem h)).trans (sum_natAbs_le_squares xs)

/-- The square of the sum is at most the number of values times the sum of the squares. -/
theorem sum_mul_sum_le (xs : List ℤ) :
    (xs.map Int.natAbs).sum * (xs.map Int.natAbs).sum ≤ xs.length * squares xs := by
  have hchebyshev := sq_sum_le_card_mul_sum_sq (s := Finset.univ)
    (f := fun i : Fin xs.length => xs[i].natAbs)
  simp only [Fin.getElem_fin, Fin.sum_univ_fun_getElem xs fun x => x.natAbs, Finset.card_univ,
    Fintype.card_fin, pow_two, Nat.cast_id,
    Fin.sum_univ_fun_getElem xs fun x => x.natAbs * x.natAbs] at hchebyshev
  exact hchebyshev

theorem foldl_ofInt {acc : ℤ} (h : acc.natAbs + (xs.map Int.natAbs).sum ≤ 2 ^ 53) :
    (xs.map ofInt).foldl (· + ·) (ofInt acc) = ofInt (acc + xs.sum) := by
  induction xs generalizing acc with
  | nil => rw [List.map_nil, List.foldl_nil, List.sum_nil, Int.add_zero]
  | cons x xs ih =>
      rw [List.map_cons, List.sum_cons] at h
      have hadd := Int.natAbs_add_le acc x
      rw [List.map_cons, List.foldl_cons, ofInt_add (by omega) (by omega), ih (by omega),
        List.sum_cons, Int.add_assoc]

theorem total_ofInt (h : (xs.map Int.natAbs).sum ≤ 2 ^ 53) :
    total (xs.map ofInt) = ofInt xs.sum := by
  have hfold := @foldl_ofInt xs 0 (by simpa using h)
  rw [Int.zero_add] at hfold
  rw [total, natCast_eq_ofInt]
  exact hfold

theorem total_squares (h : squares xs ≤ 2 ^ 53) :
    total ((xs.map ofInt).map fun x => x * x) = ofInt (squares xs) := by
  have hmap : (xs.map ofInt).map (fun x => x * x) = (xs.map fun x => x * x).map ofInt := by
    rw [List.map_map, List.map_map]
    refine List.map_congr_left fun x hx => ?_
    rw [Function.comp_apply, Function.comp_apply, ofInt_mul_self ((natAbs_le_of_mem hx).trans h)]
  have hsum : (xs.map fun x => x * x).sum = (squares xs : ℤ) := by
    rw [squares, Nat.cast_list_sum, List.map_map]
    refine congrArg List.sum (List.map_congr_left fun x _ => ?_)
    simp
  have hbound : ((xs.map fun x => x * x).map Int.natAbs).sum ≤ 2 ^ 53 := by
    simpa only [List.map_map, Function.comp_def, Int.natAbs_mul, squares] using h
  rw [hmap, total_ofInt hbound, hsum]

/-! ## Mean and radicand -/

/-- The square of a rounded mean stays below the sum of squares over one less than the number of
values. -/
theorem square_mul_le {sum squares mean one count : ℕ} (hcount : 0 < count)
    (hle : count ≤ 2 ^ 52) (hmean : mean * count * 2 ^ 53 ≤ sum * one * (2 ^ 53 + 1))
    (hsquares : sum * sum ≤ count * squares) :
    mean * mean * (count - 1) ≤ squares * one * one := by
  have hgap : (2 ^ 53 + 1) * (2 ^ 53 + 1) * (count - 1) ≤ 2 ^ 106 * count := by omega
  refine Nat.le_of_mul_le_mul_right (c := count * count * 2 ^ 106) ?_ (by positivity)
  calc mean * mean * (count - 1) * (count * count * 2 ^ 106)
      = (mean * count * 2 ^ 53) * (mean * count * 2 ^ 53) * (count - 1) := by ring
    _ ≤ (sum * one * (2 ^ 53 + 1)) * (sum * one * (2 ^ 53 + 1)) * (count - 1) :=
        Nat.mul_le_mul_right _ (Nat.mul_le_mul hmean hmean)
    _ = (sum * sum) * (one * one) * ((2 ^ 53 + 1) * (2 ^ 53 + 1) * (count - 1)) := by ring
    _ ≤ (count * squares) * (one * one) * (2 ^ 106 * count) :=
        Nat.mul_le_mul (Nat.mul_le_mul_right _ hsquares) hgap
    _ = squares * one * one * (count * count * 2 ^ 106) := by ring

/-- The units of the rounded mean, whatever its sign. -/
def meanUnits (xs : List ℤ) : ℕ :=
  unitsOfRank (nearestRank (xs.sum.natAbs * unitsPerOne) xs.length)

namespace Exact

/-- The mean is the quotient of the exact sum, rounded once. -/
theorem mean_eq (h : Exact xs) :
    mean (xs.map ofInt) = ofRatio (xs.sum < 0) xs.sum.natAbs xs.length := by
  have hsum := (sum_natAbs_le_squares xs).trans h.squares_le
  have hlength := h.length_le
  have htwo := h.two_le
  rw [mean, total_ofInt hsum, List.length_map,
    ofInt_div_natCast ((natAbs_sum_le xs).trans hsum) (by omega) (by omega)]

theorem radicand_eq (h : Exact xs) :
    radicand (xs.map ofInt) =
      ofRatio false (squares xs) (xs.length - 1) -
        mean (xs.map ofInt) * mean (xs.map ofInt) := by
  have hlength := h.length_le
  have htwo := h.two_le
  have hsquares : (squares xs : ℤ).natAbs ≤ 2 ^ 53 := h.squares_le
  rw [radicand, total_squares h.squares_le, List.length_map,
    ofInt_div_natCast hsquares (by omega) (by omega), Int.natAbs_natCast,
    decide_eq_false (Int.natCast_nonneg _).not_gt]

/-- The value under the root is a difference of two magnitudes that are in order. -/
theorem exists_radicand_eq_sub (h : Exact xs) : ∃ i j : Fin rankCount,
    radicand (xs.map ofInt) = finite false i - finite false j ∧ j ≤ i ∧
      (i : ℕ) = nearestRank (squares xs * unitsPerOne) (xs.length - 1) ∧
      (j : ℕ) = nearestRank (meanUnits xs * meanUnits xs) unitsPerOne := by
  have hlength := h.length_le
  have htwo := h.two_le
  have hsum : xs.sum.natAbs ≤ (xs.map Int.natAbs).sum := natAbs_sum_le xs
  have hbound := (sum_natAbs_le_squares xs).trans h.squares_le
  have hmean := nearestRank_ratio_lt (d := xs.length) (by omega) (hsum.trans hbound)
  have hsquare := nearestRank_ratio_lt (d := xs.length - 1) (by omega) h.squares_le
  -- both sides of the difference are ratios of units, in order before they are rounded
  have hle : nearestRank (meanUnits xs * meanUnits xs) unitsPerOne ≤
      nearestRank (squares xs * unitsPerOne) (xs.length - 1) := by
    refine nearestRank_mono unitsPerOne_pos (by omega) ?_
    refine square_mul_le (by omega) hlength (units_ratio_le (by omega) hlength) ?_
    exact (Nat.mul_le_mul hsum hsum).trans (sum_mul_sum_le xs)
  refine ⟨⟨_, hsquare⟩, ⟨_, hle.trans_lt hsquare⟩, ?_, hle, rfl, rfl⟩
  rw [h.radicand_eq, h.mean_eq, ofRatio, ofRatio, ofUnits_eq_finite hmean,
    ofUnits_eq_finite hsquare, mul_def, mul, bne_self_eq_false,
    ← ofUnits_eq_finite (hle.trans_lt hsquare)]
  rfl

/-- The value under the root is finite and has no minus. -/
theorem exists_radicand_eq_finite (h : Exact xs) :
    ∃ rank, radicand (xs.map ofInt) = finite false rank := by
  obtain ⟨i, j, hradicand, hle, -, -⟩ := h.exists_radicand_eq_sub
  rw [hradicand]
  exact exists_sub_eq_finite hle

end Exact

/-! ## Mean and spread -/

theorem toReal_int {x : ℤ} (h : x.natAbs ≤ 2 ^ 53) :
    Quantity.toReal (.int x) = .ok (ofInt x) := by
  rw [Quantity.toReal, ofInt?_of_lt (nearestRank_ratio_lt Nat.one_pos h)]

theorem mapM_toReal (h : squares xs ≤ 2 ^ 53) :
    (xs.map Quantity.int).mapM Quantity.toReal = .ok (xs.map ofInt) := by
  rw [mapM_eq_ok, List.forall₂_map_left_iff, List.forall₂_map_right_iff, List.forall₂_same]
  intro x hx
  exact toReal_int ((natAbs_le_of_mem hx).trans h)

/-- Mean and spread exist if there are two values at least, all of them have a floating point number
near them, and there is no minus under the root. -/
theorem meanAndSpread_eq_ok {values : List Quantity} {m d : Binary64} :
    meanAndSpread values = .ok (m, d) ↔ 2 ≤ values.length ∧
      ∃ xs, values.mapM Quantity.toReal = .ok xs ∧ (radicand xs).isNegative = false ∧
        mean xs = m ∧ (radicand xs).sqrt = d := by
  rw [meanAndSpread]
  by_cases hfew : values.length < 2
  · rw [if_pos hfew]
    exact ⟨nofun, fun h => absurd h.1 hfew.not_ge⟩
  · rw [if_neg hfew, bind_eq_ok]
    refine ⟨fun ⟨xs, hxs, hroot⟩ => ⟨not_lt.mp hfew, xs, hxs, ?_⟩, fun ⟨_, xs, hxs, hroot⟩ =>
      ⟨xs, hxs, ?_⟩⟩
    · cases hsign : (radicand xs).isNegative with
      | true =>
          rw [hsign] at hroot
          cases hroot
      | false =>
          rw [hsign] at hroot
          obtain ⟨hmean, hspread⟩ := Prod.mk.inj (Except.ok.inj hroot)
          exact ⟨rfl, hmean, hspread⟩
    · rw [hroot.1, ← hroot.2.1, ← hroot.2.2]
      rfl

/-- Mean and spread of such integers exist. -/
theorem meanAndSpread_of_exact (h : Exact xs) :
    meanAndSpread (xs.map .int) = .ok (mean (xs.map ofInt), (radicand (xs.map ofInt)).sqrt) := by
  obtain ⟨rank, hrank⟩ := h.exists_radicand_eq_finite
  have hsign : (radicand (xs.map ofInt)).isNegative = false := by
    rw [hrank, isNegative, Bool.false_and]
  exact meanAndSpread_eq_ok.mpr ⟨by rw [List.length_map]; exact h.two_le, _,
    mapM_toReal h.squares_le, hsign, rfl, rfl⟩

end VisitGraph.Spread
