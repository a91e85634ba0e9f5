import Mathlib.Data.List.DropRight
import Mathlib.Tactic.FieldSimp
import VisitGraph.Numeric.Numeral
import VisitGraph.Proofs.Numeric.Digits

/-! # Decimal numerals

A numeral consists of digits, of which some may follow a point, and perhaps a power of ten. What is
written of a decimal number is a numeral, in plain form and with a power of ten alike, and it is
read as a number of the same value. -/

namespace VisitGraph.Numeric

/-! ## Digits -/

/-- Nothing but digits. -/
def AllDigits (ds : List Char) : Prop :=
  ∀ c ∈ ds, c.isDigit = true

variable {ds w f p : List Char} {n : ℕ} {e : ℤ}

namespace AllDigits

theorem append (h : AllDigits w) (h' : AllDigits f) : AllDigits (w ++ f) :=
  List.forall_mem_append.mpr ⟨h, h'⟩

theorem replicate_zero (n : ℕ) : AllDigits (List.replicate n '0') := by
  intro c hc
  rw [List.eq_of_mem_replicate hc]
  rfl

theorem subset (h : AllDigits ds) (hsub : w ⊆ ds) : AllDigits w :=
  fun c hc => h c (hsub hc)

end AllDigits

theorem allDigits_digits (n : ℕ) : AllDigits (Decimal.digits n) :=
  fun _ hc => Nat.isDigit_of_mem_toDigits (by decide) (by decide) hc

theorem naturalOfDigits_eq (ds : List Char) : naturalOfDigits ds = Nat.ofDigitChars 10 ds 0 := by
  rw [naturalOfDigits, Nat.ofDigitChars_eq_foldl]

theorem naturalOfDigits_digits (n : ℕ) : naturalOfDigits (Decimal.digits n) = n := by
  rw [naturalOfDigits_eq, Decimal.digits, Nat.ofDigitChars_ten_toDigits]

theorem naturalOfDigits_append_zeros (ds : List Char) (n : ℕ) :
    naturalOfDigits (ds ++ List.replicate n '0') = naturalOfDigits ds * 10 ^ n := by
  rw [naturalOfDigits_eq, naturalOfDigits_eq, Nat.ofDigitChars_append,
    Nat.ofDigitChars_replicate_zero, Nat.mul_comm]

theorem naturalOfDigits_zeros_append (n : ℕ) (ds : List Char) :
    naturalOfDigits (List.replicate n '0' ++ ds) = naturalOfDigits ds := by
  rw [naturalOfDigits_eq, naturalOfDigits_eq, Nat.ofDigitChars_append,
    Nat.ofDigitChars_replicate_zero, Nat.mul_zero]

namespace Decimal

/-! ## The grammar of numerals -/

/-- What may follow the digits: nothing, or a power of ten. -/
inductive Ending : List Char → ℤ → Prop where
  | none : Ending [] 0
  | power (e : ℤ) : Ending (powerText e) e

/-- A text without a sign, and the decimal number that it denotes. -/
inductive Denotes : List Char → Decimal → Prop where
  | whole {w p : List Char} {e : ℤ} (hw : AllDigits w) (hne : w ≠ []) (hp : Ending p e) :
      Denotes (w ++ p) ⟨naturalOfDigits w, e⟩
  | point {w f p : List Char} {e : ℤ} (hw : AllDigits w) (hne : w ≠ []) (hf : AllDigits f)
      (hp : Ending p e) :
      Denotes (w ++ '.' :: (f ++ p)) ⟨naturalOfDigits (w ++ f), e - f.length⟩

theorem Ending.takeWhile_append (hp : Ending p e) (hw : AllDigits w) :
    (w ++ p).takeWhile Char.isDigit = w := by
  have hnil : p.takeWhile Char.isDigit = [] := by cases hp <;> rfl
  rw [List.takeWhile_append_of_pos hw, hnil, List.append_nil]

theorem Ending.dropWhile_append (hp : Ending p e) (hw : AllDigits w) :
    (w ++ p).dropWhile Char.isDigit = p := by
  have hself : p.dropWhile Char.isDigit = p := by cases hp <;> rfl
  rw [List.dropWhile_append_of_pos hw, hself]

/-- A power of ten is read as its exponent. -/
theorem readPower?_powerText (e : ℤ) : readPower? (powerText e).tail = some e := by
  have hdigits : AllDigits (List.replicate (2 - (digits e.natAbs).length) '0' ++ digits e.natAbs) :=
    (AllDigits.replicate_zero _).append (allDigits_digits _)
  have hne : digits e.natAbs ≠ [] := Nat.toDigits_ne_nil
  have hsign : Text.takeSign (powerText e).tail = (decide (e < 0),
      List.replicate (2 - (digits e.natAbs).length) '0' ++ digits e.natAbs) := by
    rw [powerText]
    by_cases he : e < 0
    · rw [if_pos he, decide_eq_true he]
      rfl
    · rw [if_neg he, decide_eq_false he]
      rfl
  have hall := List.all_eq_true.mpr hdigits
  rw [readPower?, hsign]
  simp only [naturalOfDigits_zeros_append, naturalOfDigits_digits, hall, Bool.not_true,
    Bool.or_false, List.isEmpty_iff, List.append_eq_nil_iff, hne, and_false, if_false,
    decide_eq_true_eq]
  congr 1
  omega

/-- A numeral is read as the number that it denotes. -/
theorem Denotes.read?_eq {text : List Char} {d : Decimal} (h : Denotes text d) :
    read? text = some d := by
  have hpower : ∀ e, powerText e = 'e' :: (powerText e).tail := fun _ => rfl
  cases h with
  | @whole w p e hw hne hp =>
      rw [read?, hp.takeWhile_append hw, hp.dropWhile_append hw]
      cases hp with
      | none => simp [hne]
      | power e =>
          rw [hpower]
          simp [hne, readPower?_powerText]
  | @point w f p e hw hne hf hp =>
      have htake : (w ++ '.' :: (f ++ p)).takeWhile Char.isDigit = w := by
        rw [List.takeWhile_append_of_pos hw, List.takeWhile_cons_of_neg (by decide),
          List.append_nil]
      have hdrop : (w ++ '.' :: (f ++ p)).dropWhile Char.isDigit = '.' :: (f ++ p) := by
        rw [List.dropWhile_append_of_pos hw, List.dropWhile_cons_of_neg (by decide)]
      rw [read?, htake, hdrop]
      simp only [List.head?_cons, if_true, List.tail_cons, hp.takeWhile_append hf,
        hp.dropWhile_append hf]
      cases hp with
      | none => simp [hne]
      | power e =>
          rw [hpower]
          simp [hne, readPower?_powerText]

/-- A numeral begins with a digit. -/
theorem Denotes.exists_cons {text : List Char} {d : Decimal} (h : Denotes text d) :
    ∃ c rest, text = c :: rest ∧ c.isDigit = true := by
  cases h with
  | @whole w p e hw hne hp =>
      obtain ⟨c, w, rfl⟩ := List.exists_cons_of_ne_nil hne
      exact ⟨c, w ++ p, rfl, hw c List.mem_cons_self⟩
  | @point w f p e hw hne hf hp =>
      obtain ⟨c, w, rfl⟩ := List.exists_cons_of_ne_nil hne
      exact ⟨c, _, rfl, hw c List.mem_cons_self⟩

/-! ## Values -/

theorem value_eq (d : Decimal) : d.value = d.coefficient * 10 ^ d.exponent := by
  obtain ⟨c, e⟩ := d
  rw [value, ratio_eq]
  obtain ⟨k, rfl | rfl⟩ := e.eq_nat_or_neg
  · simp
  · simp [div_eq_mul_inv]

theorem value_mul_pow (c j : ℕ) (e : ℤ) : value ⟨c * 10 ^ j, e - j⟩ = value ⟨c, e⟩ := by
  rw [value_eq, value_eq, zpow_sub₀ (by norm_num), zpow_natCast]
  push_cast
  field_simp

/-! ## Zeros at the end -/

theorem exists_stripZeros_append (ds : List Char) :
    ∃ j, ds = stripZeros ds ++ List.replicate j '0' := by
  have hzeros : ∀ c ∈ ds.rtakeWhile (· == '0'), c = '0' := fun c hc => by
    have hzero := List.mem_rtakeWhile_imp hc
    exact beq_iff_eq.mp hzero
  refine ⟨(ds.rtakeWhile (· == '0')).length, ?_⟩
  rw [← List.eq_replicate_of_mem hzeros]
  exact List.rdropWhile_append_rtakeWhile.symm

theorem allDigits_stripZeros (h : AllDigits ds) : AllDigits (stripZeros ds) := by
  obtain ⟨j, hj⟩ := exists_stripZeros_append ds
  rw [hj] at h
  exact h.subset (List.subset_append_left _ _)

/-! ## What is written -/

/-- Digits in plain form, the first of which stands for a power of ten. -/
theorem exists_denotes_plainText (h : AllDigits ds) (hne : ds ≠ []) (e : ℤ) :
    ∃ d, Denotes (plainText .exact ds e) d ∧
      d.value = value ⟨naturalOfDigits ds, e + 1 - ds.length⟩ := by
  rw [plainText]
  split
  · rename_i hneg
    have hdigits := (AllDigits.replicate_zero ((-e).toNat - 1)).append h
    have hwritten := Denotes.point (AllDigits.replicate_zero 1) (by decide) hdigits .none
    rw [naturalOfDigits_zeros_append, naturalOfDigits_zeros_append, List.append_nil] at hwritten
    refine ⟨_, hwritten, ?_⟩
    congr 2
    rw [List.length_append, List.length_replicate]
    omega
  · rename_i hnonneg
    dsimp only
    split
    · rename_i hlength
      have hdigits := h.append (AllDigits.replicate_zero (e.toNat + 1 - ds.length))
      have hwritten := Denotes.point hdigits (by simp [hne]) (AllDigits.replicate_zero 1) .none
      rw [List.append_nil, naturalOfDigits_append_zeros, naturalOfDigits_append_zeros,
        Nat.mul_assoc, ← Nat.pow_add] at hwritten
      refine ⟨_, hwritten, ?_⟩
      rw [← value_mul_pow _ (e.toNat + 1 - ds.length + 1) (e + 1 - ds.length)]
      congr 2
      rw [List.length_replicate]
      omega
    · have hwritten := Denotes.point (h.subset (List.take_subset (e.toNat + 1) ds))
        (by simp [hne]) (h.subset (List.drop_subset (e.toNat + 1) ds)) .none
      rw [List.take_append_drop, List.append_nil] at hwritten
      refine ⟨_, hwritten, ?_⟩
      congr 2
      rw [List.length_drop]
      omega

/-- Digits with the point after the first, which stands for a power of ten. -/
theorem exists_denotes_powerForm (h : AllDigits ds) (hne : ds ≠ []) (e : ℤ) :
    ∃ d, Denotes (powerForm ds e) d ∧
      d.value = value ⟨naturalOfDigits ds, e + 1 - ds.length⟩ := by
  match ds, h, hne with
  | [first], h, hne =>
      refine ⟨_, Denotes.whole h hne (.power e), ?_⟩
      congr 2
      rw [List.length_singleton]
      omega
  | first :: second :: rest, h, hne =>
      obtain ⟨hfirst, hrest⟩ := List.forall_mem_cons.mp h
      have hlead : AllDigits [first] := List.forall_mem_singleton.mpr hfirst
      refine ⟨_, Denotes.point hlead (by simp) hrest (.power e), ?_⟩
      congr 2
      simp only [List.length_cons]
      omega

/-- What is written of a decimal number is a numeral of the same value. -/
theorem exists_denotes_text (d : Decimal) :
    ∃ d', Denotes (d.text .exact) d' ∧ d'.value = d.value := by
  obtain ⟨c, e⟩ := d
  rw [text]
  split
  · rename_i hzero
    obtain ⟨d', hdenotes, hvalue⟩ := exists_denotes_plainText (AllDigits.replicate_zero 1)
      (by decide) 0
    obtain rfl : c = 0 := hzero
    refine ⟨d', hdenotes, ?_⟩
    rw [hvalue, value_eq, value_eq, Nat.cast_zero, zero_mul]
    exact zero_mul _
  · rename_i hc
    obtain ⟨j, hj⟩ := exists_stripZeros_append (digits c)
    have hdigits : AllDigits (stripZeros (digits c)) := allDigits_stripZeros (allDigits_digits c)
    have hcoefficient : naturalOfDigits (stripZeros (digits c)) * 10 ^ j = c := by
      rw [← naturalOfDigits_append_zeros, ← hj, naturalOfDigits_digits]
    have hne : stripZeros (digits c) ≠ [] := by
      intro hnil
      rw [hnil, naturalOfDigits, List.foldl_nil, Nat.zero_mul] at hcoefficient
      exact hc hcoefficient.symm
    have hlength := congrArg List.length hj
    rw [List.length_append, List.length_replicate] at hlength
    have hvalue : value ⟨naturalOfDigits (stripZeros (digits c)),
        e + (digits c).length - 1 + 1 - (stripZeros (digits c)).length⟩ = value ⟨c, e⟩ := by
      rw [← value_mul_pow _ j, hcoefficient]
      congr 2
      omega
    dsimp only
    rw [← hvalue]
    split
    · exact exists_denotes_plainText hdigits hne _
    · exact exists_denotes_powerForm hdigits hne _

end Decimal

end VisitGraph.Numeric
