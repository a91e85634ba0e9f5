import VisitGraph.Numeric.Numeral
import VisitGraph.Numeric.Quantity
import VisitGraph.Proofs.Numeric.Digits
import VisitGraph.Proofs.Numeric.NearestInteger
import VisitGraph.Proofs.Numeric.Share

/-! # Shares in hundredths

A share is written with the nearest number of hundredths. It is rounded three times on the way: to
whole hundredths, to the floating point number nearest to those, and to the six significant digits
of that one. The second error is so much smaller than the last digit that the third rounding takes
it back, and what is written are the hundredths. -/

namespace VisitGraph.Numeric

/-! ## Six significant digits -/

variable {k l j units spacing one : ℕ}

/-- A number of units within half a spacing of some hundredths of one, scaled by a power of ten that
is small against the spacing, is rounded to those hundredths. -/
theorem roundDiv_scaled (hone : one = spacing * 2 ^ 53) (hspacing : 0 < spacing) (hj : j ≤ 6)
    (hlower : 2 * (k * one) ≤ 2 * (units * 100) + 100 * spacing)
    (hupper : 2 * (units * 100) ≤ 2 * (k * one) + 100 * spacing) :
    roundDiv (units * 10 ^ (j + 2)) one = k * 10 ^ j := by
  have hscaled : units * 10 ^ (j + 2) = units * 100 * 10 ^ j := by ring
  have hproduct : k * 10 ^ j * one = k * one * 10 ^ j := by ring
  have hpow : 10 ^ j ≤ 10 ^ 6 := Nat.pow_le_pow_right (by decide) hj
  have hsmall : 100 * spacing * 10 ^ j < one := by
    calc 100 * spacing * 10 ^ j ≤ 100 * spacing * 10 ^ 6 := Nat.mul_le_mul_left _ hpow
      _ < spacing * 2 ^ 53 := by omega
      _ = one := hone.symm
  have hlower' := Nat.mul_le_mul_right (10 ^ j) hlower
  have hupper' := Nat.mul_le_mul_right (10 ^ j) hupper
  rw [Nat.add_mul, Nat.mul_assoc 2, Nat.mul_assoc 2] at hlower' hupper'
  apply roundDiv_eq_of_near
  · rw [hscaled, hproduct]
    omega
  · rw [hscaled, hproduct]
    omega

namespace Binary64

/-- Six significant digits of the magnitude nearest to some hundredths are those of the
hundredths. -/
theorem significant_share (hpos : 0 < k) (hk : k ≤ 100) :
    ∃ j : ℕ, Decimal.significant 6 (unitsOfRank (shareRank k 100)) = ⟨k * 10 ^ j, -2 - j⟩ := by
  obtain ⟨hupper, hlower⟩ := error_shareRank (by decide : 0 < 100) hk
  have hone := unitsPerOne_eq_mul_spacing
  have hspacing := spacingBelowOne_pos
  have hleast : unitsPerOne ≤ k * unitsPerOne := Nat.le_mul_of_pos_left _ hpos
  have hmost : k * unitsPerOne ≤ 100 * unitsPerOne := Nat.mul_le_mul_right _ hk
  generalize unitsOfRank (shareRank k 100) = units at *
  have hleading : Decimal.leadingExponent units < (1 : ℕ) := Decimal.leadingExponent_lt (by omega)
  have hleading' : -(3 : ℕ) ≤ Decimal.leadingExponent units :=
    Decimal.le_leadingExponent (by omega)
  obtain ⟨j, hj⟩ : ∃ j : ℕ, Decimal.leadingExponent units - (6 - 1 : ℕ) = -((j + 2 : ℕ) : ℤ) :=
    ⟨(3 - Decimal.leadingExponent units).toNat, by omega⟩
  refine ⟨j, ?_⟩
  have hscaled : Decimal.scaled units (-((j + 2 : ℕ) : ℤ)) =
      (units * 10 ^ (j + 2), unitsPerOne * 1) := rfl
  have hround := roundDiv_scaled hone hspacing (j := j) (by omega) hlower hupper
  rw [Decimal.significant, hj, hscaled]
  simp only [Nat.mul_one, hround, Decimal.mk.injEq, true_and]
  omega

/-- The number nearest to some hundredths is written as the hundredths are. -/
theorem briefText_ofRatio (hk : k ≤ 100) :
    (ofRatio false k 100).briefText = String.ofList (Decimal.text .brief ⟨k, -2⟩) := by
  rw [ofRatio_eq_finite (by decide) hk]
  simp only [briefText, textWith, signed, Bool.false_eq_true, if_false]
  rcases Nat.eq_zero_or_pos k with rfl | hpos
  · have hzero : unitsOfRank (shareRank 0 100) = 0 := by
      rw [shareRank, Nat.zero_mul]
      rfl
    rw [if_pos hzero]
    rfl
  · have hne : unitsOfRank (shareRank k 100) ≠ 0 := by
      intro hzero
      have hlower := (error_shareRank (by decide : 0 < 100) hk).2
      have hleast : unitsPerOne ≤ k * unitsPerOne := Nat.le_mul_of_pos_left _ hpos
      have hone := unitsPerOne_eq_mul_spacing
      have hspacing := spacingBelowOne_pos
      omega
    obtain ⟨j, hj⟩ := significant_share hpos hk
    rw [if_neg hne, hj, Decimal.text_mul_pow]

end Binary64

/-! ## Hundredths as they are written -/

/-- The whole part of so many hundredths, and behind a point the tenths and hundredths that are
left. Nothing stands for a last place that is zero. -/
def hundredthsText (k : ℕ) : List Char :=
  Decimal.digits (k / 100) ++
    if k % 100 = 0 then []
    else if k % 10 = 0 then '.' :: Decimal.digits (k % 100 / 10)
    else '.' :: Decimal.digits (k % 100 / 10) ++ Decimal.digits (k % 10)

/-- The text consists of digits and points. It does not end with a point, and after a point it does
not end with a zero. -/
structure IsTrimmed (text : List Char) : Prop where
  plain : ∀ c ∈ text, c.isDigit = true ∨ c = '.'
  point : text.getLast? ≠ some '.'
  zeros : '.' ∈ text → text.getLast? ≠ some '0'

instance : DecidablePred IsTrimmed := fun text =>
  letI := List.decidableBAll (fun c => c.isDigit = true ∨ c = '.') text
  decidable_of_iff ((∀ c ∈ text, c.isDigit = true ∨ c = '.') ∧ text.getLast? ≠ some '.' ∧
    ('.' ∈ text → text.getLast? ≠ some '0'))
    ⟨fun h => ⟨h.1, h.2.1, h.2.2⟩, fun h => ⟨h.plain, h.point, h.zeros⟩⟩

/-- Up to one, the plain form of the hundredths is their text. It is trimmed, and is read back as
the number that it was written for. -/
theorem text_hundredths : ∀ k ≤ 100, Decimal.text .brief ⟨k, -2⟩ = hundredthsText k ∧
    IsTrimmed (hundredthsText k) ∧
    (Decimal.read? (hundredthsText k)).any fun d => d.ratio.1 * 100 = k * d.ratio.2 := by
  decide

theorem exists_read_hundredthsText (hk : k ≤ 100) :
    ∃ d, Decimal.read? (hundredthsText k) = some d ∧ d.value = k / 100 := by
  obtain ⟨d, hd, hratio⟩ := (Option.any_eq_true _ _).mp (text_hundredths k hk).2.2
  have hpos : (0 : ℚ) < d.ratio.2 := by exact_mod_cast d.ratio_snd_pos
  have hproduct : (d.ratio.1 * 100 : ℚ) = k * d.ratio.2 := by
    exact_mod_cast of_decide_eq_true hratio
  exact ⟨d, hd, by rw [Decimal.value, div_eq_div_iff hpos.ne' (by norm_num), hproduct]⟩

/-- The text tells the number of hundredths nearest to a value, which is an error of at most half a
hundredth. It is the plain and trimmed text of the hundredths, and no digit of them is lost. -/
structure Shows (v : ℚ) (k : ℕ) (text : List Char) : Prop where
  rounded : IsRounded (100 * v) k
  near : |(k / 100 : ℚ) - v| ≤ 1 / 200
  text_eq : text = hundredthsText k
  trimmed : IsTrimmed text
  reads : ∃ d, Decimal.read? text = some d ∧ d.value = k / 100

/-- Up to one, the text of the nearest hundredths shows a value. -/
theorem shows_hundredthsText {v : ℚ} (hk : k ≤ 100) (hrounded : IsRounded (100 * v) k) :
    Shows v k (hundredthsText k) := by
  have hnear : |(k / 100 : ℚ) - v| ≤ 1 / 200 := by
    obtain ⟨hlower, hupper⟩ := abs_le.mp hrounded.near
    push_cast at hlower hupper
    rw [abs_le]
    constructor <;> linarith
  exact ⟨hrounded, hnear, rfl, (text_hundredths k hk).2.1, exists_read_hundredthsText hk⟩

namespace Shows

variable {v w : ℚ} {text text' : List Char}

theorem eq_iff (h : Shows v k text) (h' : Shows w l text') : text = text' ↔ k = l := by
  constructor
  · rintro rfl
    obtain ⟨d, hd, hvalue⟩ := h.reads
    obtain ⟨d', hd', hvalue'⟩ := h'.reads
    obtain rfl := Option.some.inj (hd.symm.trans hd')
    have hquotient : (k / 100 : ℚ) = l / 100 := hvalue.symm.trans hvalue'
    exact_mod_cast (div_left_inj' (by norm_num)).mp hquotient
  · rintro rfl
    rw [h.text_eq, h'.text_eq]

theorem mono (h : Shows v k text) (h' : Shows w l text') (hle : v ≤ w) : k ≤ l := by
  have hrounded := h.rounded.mono h'.rounded (by linarith)
  exact_mod_cast hrounded

end Shows

namespace Binary64

variable {x : Binary64} {v : ℚ}

/-- Only the two zeros have no units. -/
theorem finite_eq_zero {negative : Bool} {rank : Fin rankCount} (h : unitsOfRank rank = 0) :
    finite negative rank = zero negative := by
  have hrank : nearestRank 0 1 = rank := by
    rw [← h, nearestRank_unitsOfRank]
  rw [zero, ofUnits_eq_finite (hrank ▸ rank.isLt)]
  exact congrArg (finite negative) (Fin.ext hrank.symm)

/-- A number from zero to one, with its exact value. It has no minus, nor has its zero. -/
structure IsShare (x : Binary64) (v : ℚ) : Prop where
  value : x.value? = some v
  nonneg : 0 ≤ v
  le_one : v ≤ 1
  unsigned : x ≠ zero true

theorem IsShare.exists_rank (h : IsShare x v) : ∃ rank : Fin rankCount,
    x = finite false rank ∧ v = unitsOfRank rank / unitsPerOne ∧
      unitsOfRank rank ≤ unitsPerOne := by
  have hone : (0 : ℚ) < unitsPerOne := by exact_mod_cast unitsPerOne_pos
  rcases x with _ | _ | ⟨negative, rank⟩
  · cases h.value
  · cases h.value
  · obtain rfl := Option.some.inj h.value
    cases negative with
    | false =>
        have hle : (unitsOfRank rank : ℚ) ≤ unitsPerOne := (div_le_one hone).mp h.le_one
        exact ⟨rank, rfl, rfl, Nat.cast_le.mp hle⟩
    | true =>
        have hnonneg := (le_div_iff₀ hone).mp h.nonneg
        rw [zero_mul, signedUnits, if_pos rfl] at hnonneg
        have hunits : unitsOfRank rank = 0 := by
          have hle : (0 : ℤ) ≤ -(unitsOfRank rank : ℤ) := by exact_mod_cast hnonneg
          omega
        exact absurd (finite_eq_zero hunits) h.unsigned

/-- What is written of a magnitude up to one: the text of its hundredths. -/
theorem shareText_finite {rank : Fin rankCount} (hle : unitsOfRank rank ≤ unitsPerOne) :
    ∃ k : ℕ, k ≤ 100 ∧ IsRounded (100 * (unitsOfRank rank / unitsPerOne)) k ∧
      (Quantity.real (finite false rank)).shareText = .ok (String.ofList (hundredthsText k)) := by
  have hk : roundDiv (unitsOfRank rank * 100) unitsPerOne ≤ 100 := by
    calc roundDiv (unitsOfRank rank * 100) unitsPerOne
        ≤ roundDiv (100 * unitsPerOne) unitsPerOne :=
          roundDiv_le_roundDiv (by omega) unitsPerOne
      _ = 100 := roundDiv_mul_self unitsPerOne_pos 100
  have hrounded := isRounded_roundDiv unitsPerOne_pos (unitsOfRank rank * 100)
  have hvalue : ((unitsOfRank rank * 100 : ℕ) / unitsPerOne : ℚ) =
      100 * (unitsOfRank rank / unitsPerOne) := by
    push_cast
    ring
  have hshare : (Quantity.real (finite false rank)).shareText =
      .ok (ofRatio false (roundDiv (unitsOfRank rank * 100) unitsPerOne) 100).briefText := rfl
  rw [hvalue] at hrounded
  refine ⟨_, hk, hrounded, ?_⟩
  rw [hshare, briefText_ofRatio hk, (text_hundredths _ hk).1]

/-- A share is written as the hundredths nearest to it. -/
theorem exists_shows (h : IsShare x v) : ∃ k text,
    (Quantity.real x).shareText = .ok (String.ofList text) ∧ Shows v k text := by
  obtain ⟨rank, rfl, rfl, hle⟩ := h.exists_rank
  obtain ⟨k, hk, hrounded, htext⟩ := shareText_finite hle
  exact ⟨k, hundredthsText k, htext, shows_hundredthsText hk hrounded⟩

/-- A share is written as the nearest number of hundredths, and as the even one of two that are
equally near. The text tells which number this is, and a larger share shows no smaller one. -/
theorem shareText_hundredths (h : IsShare x v) : ∃ k text,
    (Quantity.real x).shareText = .ok (String.ofList text) ∧ Shows v k text ∧
      ∀ w l text', Shows w l text' →
        (text = text' ↔ k = l) ∧ (v ≤ w → k ≤ l) ∧ (w ≤ v → l ≤ k) := by
  obtain ⟨k, text, htext, hshows⟩ := exists_shows h
  exact ⟨k, text, htext, hshows, fun w l text' hshows' =>
    ⟨hshows.eq_iff hshows', hshows.mono hshows', hshows'.mono hshows⟩⟩

/-- An eighth is halfway between twelve and thirteen hundredths. -/
theorem shareText_hundredths_eighth : IsShare (ofRatio false 1 8) (1 / 8) ∧
    (Quantity.real (ofRatio false 1 8)).shareText = .ok "0.12" ∧
      Shows (1 / 8) 12 "0.12".toList := by
  have hdivisor : 8 * 2 ^ 50 = 2 ^ 53 := by norm_num
  have hunits : unitsOfRank (shareRank 1 8) = 2 ^ 50 * spacingBelowOne := by
    rw [← unitsOfRank_shareRank_pow (by decide), shareRank, shareRank,
      ← nearestRank_mul_right (c := 2 ^ 50) (by decide), Nat.one_mul, Nat.mul_comm, hdivisor]
  have hvalue : (unitsOfRank (shareRank 1 8) / unitsPerOne : ℚ) = 1 / 8 := by
    have hspacing : (spacingBelowOne : ℚ) ≠ 0 := by exact_mod_cast spacingBelowOne_pos.ne'
    rw [hunits, unitsPerOne_eq_mul_spacing]
    push_cast
    field_simp
    norm_num
  have hshare : IsShare (ofRatio false 1 8) (1 / 8) := by
    rw [ofRatio_eq_finite (by decide) (by decide)]
    refine ⟨congrArg some hvalue, by norm_num, by norm_num, ?_⟩
    simp only [zero, ofUnits]
    split <;> simp
  obtain ⟨k, text, htext, hshows, -⟩ := shareText_hundredths hshare
  have htwelve : IsRounded (100 * (1 / 8)) 12 :=
    ⟨abs_le.mpr ⟨by norm_num, by norm_num⟩, fun _ => by decide⟩
  obtain rfl : k = 12 := by exact_mod_cast hshows.rounded.unique htwelve
  obtain rfl : text = "0.12".toList := hshows.text_eq
  exact ⟨hshare, htext, hshows⟩

end Binary64

end VisitGraph.Numeric
