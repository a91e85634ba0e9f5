import VisitGraph.Proofs.Numeric.Accuracy
import VisitGraph.Proofs.Numeric.Numeral
import VisitGraph.Proofs.Numeric.Overflow
import VisitGraph.Proofs.Numeric.Shortest
import VisitGraph.Proofs.Numeric.Signed

/-! # Reading numbers

A numeral with a sign is read as the number nearest to its exact value. Exponents out of all
proportion are cut before that, which changes nothing: such a number is infinite or zero with the
cut exponent as well. -/

namespace VisitGraph.Numeric

namespace Decimal

variable {d d' : Decimal} {c rank : ℕ} {e : ℤ} {text : List Char}

/-! ## Rounding -/

/-- The nearest number depends on the value alone. -/
theorem toBinary64_congr (h : d.value = d'.value) (negative : Bool) :
    d.toBinary64 negative = d'.toBinary64 negative := by
  have hpos : (0 : ℚ) < d.ratio.2 := by exact_mod_cast d.ratio_snd_pos
  have hpos' : (0 : ℚ) < d'.ratio.2 := by exact_mod_cast d'.ratio_snd_pos
  rw [value, value, div_eq_div_iff hpos.ne' hpos'.ne'] at h
  have hratio : d.ratio.1 * d'.ratio.2 = d'.ratio.1 * d.ratio.2 := by exact_mod_cast h
  have hrank : Binary64.nearestRank (d.ratio.1 * unitsPerOne) d.ratio.2 =
      Binary64.nearestRank (d'.ratio.1 * unitsPerOne) d'.ratio.2 := by
    refine Binary64.nearestRank_congr d.ratio_snd_pos d'.ratio_snd_pos ?_
    rw [Nat.mul_right_comm, hratio, Nat.mul_right_comm]
  simp only [toBinary64, Binary64.ofRatio, Binary64.ofUnits, hrank]

theorem two_pow_le_ten_pow {j k : ℕ} (h : j ≤ 3 * k) : 2 ^ j ≤ 10 ^ k := by
  calc 2 ^ j ≤ 2 ^ (3 * k) := Nat.pow_le_pow_right (by decide) h
    _ = (2 ^ 3) ^ k := Nat.pow_mul 2 3 k
    _ ≤ 10 ^ k := Nat.pow_le_pow_left (by decide) k

/-- A number with a large exponent is infinite … -/
theorem toBinary64_of_large (hc : 0 < c) (he : 400 ≤ e) (negative : Bool) :
    toBinary64 negative ⟨c, e⟩ = .infinity negative := by
  have hpow : 2 ^ 1024 ≤ c * 10 ^ e.toNat := by
    calc 2 ^ 1024 ≤ 10 ^ e.toNat := two_pow_le_ten_pow (by omega)
      _ ≤ c * 10 ^ e.toNat := Nat.le_mul_of_pos_left _ hc
  have hexponent : (-e).toNat = 0 := by omega
  have hrank := (Binary64.nearestRank_lt_rankCount_iff (c * 10 ^ e.toNat)).not.mpr
    (not_lt.mpr ((Nat.sub_le _ _).trans hpow))
  rw [toBinary64, ratio_eq, hexponent, Nat.pow_zero, Binary64.ofRatio, Binary64.ofUnits]
  exact dif_neg hrank

/-- … and one with a small exponent is zero. -/
theorem toBinary64_of_small (he : e ≤ -400 - (digits c).length) (negative : Bool) :
    toBinary64 negative ⟨c, e⟩ = .zero negative := by
  obtain ⟨k, hk⟩ : ∃ k : ℕ, (-e).toNat = (digits c).length + k + 400 :=
    ⟨(-e).toNat - (digits c).length - 400, by omega⟩
  have hexponent : e.toNat = 0 := by omega
  have hc : c < 10 ^ ((digits c).length + k) := by
    have hlength := (length_digits_le_iff (length_digits_pos c)).mp le_rfl
    exact hlength.trans_le (Nat.pow_le_pow_right (by decide) (Nat.le_add_right _ k))
  have hone : 2 * unitsPerOne ≤ 10 ^ 400 := by
    rw [unitsPerOne_eq, ← Nat.pow_succ']
    exact two_pow_le_ten_pow (by decide)
  have hsmall : 2 * (c * unitsPerOne) < 10 ^ (-e).toNat := by
    calc 2 * (c * unitsPerOne) = c * (2 * unitsPerOne) := by ring
      _ ≤ c * 10 ^ 400 := Nat.mul_le_mul_left c hone
      _ < 10 ^ ((digits c).length + k) * 10 ^ 400 :=
        Nat.mul_lt_mul_of_pos_right hc (pow_pos (by decide) 400)
      _ = 10 ^ (-e).toNat := by rw [hk, Nat.pow_add 10 ((digits c).length + k) 400]
  have hrank := Binary64.nearestRank_eq_zero hsmall
  have hzero : Binary64.nearestRank 0 1 = 0 := Binary64.nearestRank_unitsOfRank 0
  simp only [toBinary64, ratio_eq, hexponent, Nat.pow_zero, Nat.mul_one, Binary64.ofRatio,
    Binary64.zero, Binary64.ofUnits, hrank, hzero]

/-- Cutting the exponent changes nothing. -/
theorem toBinary64_moderate (d : Decimal) (negative : Bool) :
    d.moderate.toBinary64 negative = d.toBinary64 negative := by
  obtain ⟨c, e⟩ := d
  rw [moderate]
  rcases lt_or_ge 400 e with hlarge | hle
  · have hcut : max (-400 - ((digits c).length : ℤ)) (min 400 e) = 400 := by omega
    rw [hcut]
    rcases Nat.eq_zero_or_pos c with rfl | hc
    · refine toBinary64_congr ?_ negative
      rw [value_eq, value_eq, Nat.cast_zero, zero_mul, zero_mul]
    · rw [toBinary64_of_large hc le_rfl, toBinary64_of_large hc hlarge.le]
  · rcases lt_or_ge e (-400 - (digits c).length) with hsmall | hge
    · have hcut : max (-400 - ((digits c).length : ℤ)) (min 400 e) = -400 - (digits c).length := by
        omega
      rw [hcut, toBinary64_of_small le_rfl, toBinary64_of_small hsmall.le]
    · have hcut : max (-400 - ((digits c).length : ℤ)) (min 400 e) = e := by omega
      rw [hcut]

/-! ## The nearest number -/

/-- The exact value, with a sign. -/
def signedValue (negative : Bool) (d : Decimal) : ℚ :=
  if negative then -d.value else d.value

/-- The magnitude of a rank is the nearest one to a decimal number that has the rank. -/
theorem HasRank.isNearest {rank : Fin rankCount} (h : d.HasRank rank) (negative : Bool) :
    Binary64.IsNearest (signedValue negative d) (.finite negative rank) := by
  have hlt : Binary64.nearestRank (d.ratio.1 * unitsPerOne) d.ratio.2 < rankCount := by
    rw [h]
    exact rank.isLt
  have hnearest := Binary64.isNearest_ofRatio d.ratio_snd_pos hlt
  rw [← h.toBinary64_eq negative]
  cases negative with
  | false => exact hnearest
  | true =>
      have hflipped := hnearest.neg
      rwa [Binary64.ofRatio, Binary64.neg_ofUnits, Bool.not_false, ← Binary64.ofRatio] at hflipped

/-! ## Numerals with a sign -/

/-- The exact value of a numeral with a sign. -/
def readValue? (text : List Char) : Option ℚ :=
  let (negative, rest) := Text.takeSign text
  (read? rest).map (signedValue negative)

theorem Denotes.takeSign_signed (h : Denotes text d) (negative : Bool) :
    Text.takeSign (Binary64.signed negative text).toList = (negative, text) := by
  rw [Binary64.signed, String.toList_ofList]
  cases negative with
  | true => rfl
  | false =>
      obtain ⟨c, rest, rfl, hc⟩ := h.exists_cons
      rw [if_neg Bool.false_ne_true, Text.takeSign]
      · rintro _ ⟨⟩
        exact absurd hc (by decide)
      · rintro _ ⟨⟩
        exact absurd hc (by decide)

theorem Denotes.readValue?_signed (h : Denotes text d) (negative : Bool) :
    readValue? (Binary64.signed negative text).toList = some (signedValue negative d) := by
  rw [readValue?, h.takeSign_signed]
  dsimp only
  rw [h.read?_eq, Option.map_some]

/-- A numeral with a sign is read as the number nearest to its value. -/
theorem Denotes.read?_signed (h : Denotes text d) (negative : Bool) :
    Binary64.read? (Binary64.signed negative text).toList = some (d.toBinary64 negative) := by
  obtain ⟨c, rest, htext, hc⟩ := h.exists_cons
  have hword : ∀ word : List Char, word.head?.any Char.isDigit = false → text ≠ word := by
    rintro word hhead rfl
    rw [htext, List.head?_cons, Option.any_some, hc] at hhead
    cases hhead
  rw [Binary64.read?, h.takeSign_signed]
  dsimp only
  rw [if_neg (hword "inf".toList (by decide)), if_neg (hword "nan".toList (by decide)), h.read?_eq,
    Option.map_some, toBinary64_moderate]

end Decimal

end VisitGraph.Numeric
