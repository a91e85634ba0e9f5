import VisitGraph.Proofs.Band.Rule
import VisitGraph.Proofs.Band.Thresholds
import VisitGraph.Proofs.Statistics.Banding

/-! # Bands in order

As the thresholds are in the order of the bands, more calls never lead to a lower band, no call
count lies both above and below the mean, and the rules for above and below can be mixed. -/

namespace VisitGraph

open Numeric

namespace Band

variable {mean spread calls calls' : Quantity} {limit : Band → Quantity}

/-! ## The band that is found -/

/-- Whether a call count lies beyond a given threshold of the band. -/
def passes (limit : Band → Quantity) (calls : Quantity) (b : Band) : Bool :=
  if b.isAbove then (limit b).lt calls else calls.lt (limit b)

theorem Thresholds.admits_eq (h : Thresholds mean spread limit) (b : Band) (calls : Quantity) :
    b.admits calls mean spread = .ok (passes limit calls b) := by
  rw [admits, h.threshold_eq b]
  rfl

theorem Thresholds.firstOf_eq (h : Thresholds mean spread limit) (bands : List Band)
    (calls : Quantity) :
    firstOf bands calls mean spread = .ok (bands.find? (passes limit calls)) :=
  firstOf_eq_find? (h.admits_eq · calls) bands

theorem Thresholds.classify_eq (h : Thresholds mean spread limit) (calls : Quantity) :
    classify calls mean spread = .ok (all.find? (passes limit calls)) :=
  h.firstOf_eq all calls

/-! ## Above and below -/

theorem Thresholds.not_both (h : Thresholds mean spread limit) {b b' : Band}
    (habove : b.isAbove = true) (hbelow : b'.isAbove = false) :
    ¬ (passes limit calls b = true ∧ passes limit calls b' = true) := by
  rintro ⟨hb, hb'⟩
  rw [passes, if_pos habove] at hb
  rw [passes, hbelow, if_neg Bool.false_ne_true] at hb'
  have hside : b'.side ≤ b.side := by
    cases b <;> cases b' <;> simp [side, reach, isAbove] at habove hbelow ⊢
  have hle := h.le_of_side b' b hside (Quantity.isNumber_of_lt hb').2 (Quantity.isNumber_of_lt hb).1
  exact Quantity.lt_asymm (Quantity.lt_of_lt_of_le hb' hle) hb

theorem passes_of_le (limit : Band → Quantity) (h : calls.le calls' = true) (b : Band) :
    (b.isAbove = true → passes limit calls b = true → passes limit calls' b = true) ∧
      (b.isAbove = false → passes limit calls' b = true → passes limit calls b = true) := by
  constructor
  · intro habove hpasses
    rw [passes, if_pos habove] at hpasses ⊢
    exact Quantity.lt_of_lt_of_le hpasses h
  · intro hbelow hpasses
    rw [passes, hbelow, if_neg Bool.false_ne_true] at hpasses ⊢
    exact Quantity.lt_of_le_of_lt h hpasses

/-- The place of a band in the order of the bands, nothing being in the middle. -/
def level (band : Option Band) : ℤ :=
  band.elim 0 side

theorem level_find?_all (p : Band → Bool) : level (all.find? p) =
    if p farHigh then 2 else if p high then 1 else if p farLow then -2 else if p low then -1
      else 0 := by
  simp only [all, List.find?]
  cases p farHigh <;> cases p high <;> cases p farLow <;> cases p low <;> rfl

/-- More calls do not lead to a lower band. -/
theorem level_le (hle : calls.le calls' = true) :
    level (all.find? (passes limit calls)) ≤ level (all.find? (passes limit calls')) := by
  have hup := fun b => (passes_of_le limit hle b).1
  have hdown := fun b => (passes_of_le limit hle b).2
  rw [level_find?_all, level_find?_all]
  by_cases hfarHigh : passes limit calls' farHigh = true
  · rw [if_pos hfarHigh]
    split_ifs <;> decide
  rw [if_neg hfarHigh, if_neg (mt (hup farHigh rfl) hfarHigh)]
  by_cases hhigh : passes limit calls' high = true
  · rw [if_pos hhigh]
    split_ifs <;> decide
  rw [if_neg hhigh, if_neg (mt (hup high rfl) hhigh)]
  by_cases hfarLow : passes limit calls' farLow = true
  · rw [if_pos hfarLow, if_pos (hdown farLow rfl hfarLow)]
  rw [if_neg hfarLow]
  by_cases hlow : passes limit calls' low = true
  · rw [if_pos hlow, if_pos (hdown low rfl hlow)]
    split_ifs <;> decide
  · rw [if_neg hlow]
    split_ifs <;> decide

/-! ## Other orders of the rules -/

/-- The four rules in an order in which the farther band on each side comes first. -/
structure Orderly (bands : List Band) : Prop where
  perm : bands.Perm all
  above : [farHigh, high].Sublist bands
  below : [farLow, low].Sublist bands

/-- A test that only bands of one side pass is decided among the bands of that side. -/
theorem find?_filter_side {p side : Band → Bool} (h : ∀ b, p b = true → side b = true)
    (bands : List Band) : (bands.filter side).find? p = bands.find? p := by
  rw [List.find?_filter]
  congr 1
  funext b
  cases hp : p b with
  | false => simp
  | true => simp [h b hp]

theorem filter_eq_of_sublist {bands part : List Band} {side : Band → Bool} (h : bands.Perm all)
    (hsublist : part.Sublist bands) (hpart : part.filter side = all.filter side) :
    bands.filter side = all.filter side := by
  have hsub : (all.filter side).Sublist (bands.filter side) := hpart ▸ hsublist.filter side
  exact (hsub.eq_of_length (h.filter side).length_eq.symm).symm

theorem Orderly.find?_eq {bands : List Band} (h : Orderly bands) {p : Band → Bool}
    (hp : ∀ b b' : Band, b.isAbove = true → b'.isAbove = false → ¬ (p b = true ∧ p b' = true)) :
    bands.find? p = all.find? p := by
  by_cases hex : ∃ b : Band, b.isAbove = true ∧ p b = true
  · obtain ⟨b, habove, hb⟩ := hex
    have hside : ∀ b', p b' = true → b'.isAbove = true := fun b' hb' => by
      by_contra hbelow
      exact hp b b' habove (Bool.eq_false_of_not_eq_true hbelow) ⟨hb, hb'⟩
    rw [← find?_filter_side hside bands, ← find?_filter_side hside all,
      filter_eq_of_sublist h.perm h.above (by decide)]
  · have hside : ∀ b, p b = true → (!b.isAbove) = true := fun b hb => by
      rw [Bool.not_eq_true']
      exact Bool.eq_false_of_not_eq_true fun habove => hex ⟨b, habove, hb⟩
    rw [← find?_filter_side hside bands, ← find?_filter_side hside all,
      filter_eq_of_sublist h.perm h.below (by decide)]

/-! ## Failures -/

/-- Whether there is a band at all is decided by the first threshold. -/
theorem classify_eq_error {fault : Fault} (hspread : (Quantity.int 0).le spread = true)
    (calls : Quantity) : classify calls mean spread = .error fault ↔
      farHigh.threshold mean spread = .error fault := by
  cases hthreshold : farHigh.threshold mean spread with
  | ok limit =>
      obtain ⟨limit, hlimit⟩ := exists_thresholds hspread hthreshold
      rw [hlimit.classify_eq]
      exact ⟨nofun, nofun⟩
  | error fault' =>
      have hclassify : classify calls mean spread = .error fault' := by
        rw [classify, all, firstOf, admits, hthreshold]
        rfl
      rw [hclassify, Except.error.injEq, Except.error.injEq]

theorem exists_thresholds_of_classify {band : Option Band}
    (hspread : (Quantity.int 0).le spread = true) (h : classify calls mean spread = .ok band) :
    ∃ limit, Thresholds mean spread limit := by
  cases hthreshold : farHigh.threshold mean spread with
  | ok limit => exact exists_thresholds hspread hthreshold
  | error fault =>
      rw [(classify_eq_error hspread calls).mpr hthreshold] at h
      cases h

/-- No call count passes a rule above the mean and one below it. -/
def Exclusive (calls mean spread : Quantity) : Prop :=
  ∀ b b' : Band, b.isAbove = true → b'.isAbove = false →
    ¬ (b.admits calls mean spread = .ok true ∧ b'.admits calls mean spread = .ok true)

theorem Thresholds.exclusive (h : Thresholds mean spread limit) (calls : Quantity) :
    Exclusive calls mean spread := by
  intro b b' habove hbelow
  rw [h.admits_eq, h.admits_eq, Except.ok.injEq, Except.ok.injEq]
  exact h.not_both habove hbelow

end Band

/-! ## Spreads that are computed -/

namespace Numeric.Binary64

variable {x : Binary64}

/-- A root that is a number is not negative. -/
theorem zero_le_sqrt (hx : x.isNegative = false) (hnan : x.sqrt ≠ nan) :
    (Quantity.int 0).le (.real x.sqrt) = true := by
  cases x with
  | nan => exact absurd rfl hnan
  | infinity negative =>
      rw [isNegative] at hx
      subst hx
      exact zero_le_of_key rfl (Int.natCast_nonneg _)
  | finite negative rank =>
      rw [isNegative, Bool.and_eq_false_iff] at hx
      rw [sqrt]
      split_ifs with hzero hnegative
      · have hrank : (rank : ℕ) = 0 := unitsOfRank_strictMono.injective hzero
        refine zero_le_of_key (key?_finite negative rank) ?_
        rw [hrank, signedRank_zero]
      · rcases hx with hpositive | hunits
        · exact absurd hnegative (hpositive ▸ Bool.false_ne_true)
        · exact absurd (by simpa using hunits) hzero
      · exact zero_le_of_key (key?_ofUnits false _ _) (Int.natCast_nonneg _)

end Numeric.Binary64

namespace Statistics

variable {ids : List String} {s : Statistics}

theorem zero_le_spread (h : ofVisits ids = .ok s) (hnan : s.spread ≠ .real .nan) :
    (Quantity.int 0).le s.spread = true := by
  simp only [ofVisits, bind_eq_ok, pure_eq_ok] at h
  obtain ⟨⟨mean, spread⟩, hspread, bands, -, rfl⟩ := h
  obtain ⟨-, xs, -, hsign, -, rfl⟩ := Spread.meanAndSpread_eq_ok.mp hspread
  exact Binary64.zero_le_sqrt hsign fun h => hnan (congrArg _ h)

end Statistics

/-- The bands grow with the calls. Whether there are any does not depend on the calls, and then no
call count passes a rule above the mean and one below it, so that all orders of the rules that try
the farther band first agree. -/
theorem bands_monotone :
    (∀ mean spread : Quantity, (Quantity.int 0).le spread = true →
      (∀ fault calls calls', Band.classify calls mean spread = .error fault →
        Band.classify calls' mean spread = .error fault) ∧
      ∀ calls band, Band.classify calls mean spread = .ok band →
        Band.Exclusive calls mean spread ∧
        (∀ bands, Band.Orderly bands → Band.firstOf bands calls mean spread = .ok band) ∧
        ∀ calls', ∃ band', Band.classify calls' mean spread = .ok band' ∧
          (calls.le calls' = true → Band.level band ≤ Band.level band')) ∧
    ∀ ids s, Statistics.ofVisits ids = .ok s → s.spread ≠ .real .nan →
      ∀ id ∈ s.calls.keys, ∀ id' ∈ s.calls.keys, s.callsOf id ≤ s.callsOf id' →
        Band.level (s.bandOf id) ≤ Band.level (s.bandOf id') := by
  constructor
  · intro mean spread hspread
    refine ⟨fun fault calls calls' h => ?_, fun calls band h => ?_⟩
    · rw [Band.classify_eq_error hspread] at h ⊢
      exact h
    · obtain ⟨limit, hlimit⟩ := Band.exists_thresholds_of_classify hspread h
      rw [hlimit.classify_eq, Except.ok.injEq] at h
      subst h
      refine ⟨hlimit.exclusive calls, fun bands hbands => ?_, fun calls' =>
        ⟨_, hlimit.classify_eq calls', Band.level_le⟩⟩
      rw [hlimit.firstOf_eq, hbands.find?_eq fun b b' => hlimit.not_both]
  · intro ids s hs hnan id hid id' hid' hle
    have hspread := Statistics.zero_le_spread hs hnan
    have hband := (Statistics.bandOf_of_ofVisits hs).1 id hid
    have hband' := (Statistics.bandOf_of_ofVisits hs).1 id' hid'
    obtain ⟨limit, hlimit⟩ := Band.exists_thresholds_of_classify hspread hband
    rw [hlimit.classify_eq, Except.ok.injEq] at hband hband'
    rw [← hband, ← hband']
    exact Band.level_le (by rwa [Quantity.le_int, decide_eq_true_eq])

/-- Twice the spread overflows, so from a mean of minus infinity the far thresholds are not numbers,
and everything finite lies above the near one. Of seven nodes, one is visited five times. -/
theorem bands_monotone_overflow :
    (let mean := Quantity.real (.infinity true)
    let spread := Quantity.real (.ofRatio false (2 ^ 1023) 1)
    (Quantity.int 0).le spread = true ∧
      Band.classify (.int (-5)) mean spread = .ok (some .high) ∧
      Band.Exclusive (.int (-5)) mean spread ∧
      Band.firstOf [.farLow, .farHigh, .low, .high] (.int (-5)) mean spread = .ok (some .high) ∧
      ∃ band, Band.classify (.int 7) mean spread = .ok band ∧ 1 ≤ Band.level band) ∧
    ∃ s, Statistics.ofVisits
        ["Start", "1", "2", "1", "3", "1", "4", "1", "5", "1", "Exit"] = .ok s ∧
      s.spread ≠ .real .nan ∧ Band.level (s.bandOf "2") ≤ Band.level (s.bandOf "1") := by
  obtain ⟨hclassify, hvisits⟩ := bands_monotone
  constructor
  · intro mean spread
    have hspread : (Quantity.int 0).le spread = true := by decide +kernel
    have hband : Band.classify (.int (-5)) mean spread = .ok (some .high) := by decide +kernel
    obtain ⟨hexclusive, horder, hmore⟩ := (hclassify mean spread hspread).2 _ _ hband
    obtain ⟨band, hseven, hlevel⟩ := hmore (.int 7)
    exact ⟨hspread, hband, hexclusive, horder _ ⟨by decide, by decide, by decide⟩, band, hseven,
      hlevel (by decide +kernel)⟩
  · obtain ⟨s, hs, hsound⟩ := @Statistics.exists_sound_ofVisits
      ["Start", "1", "2", "1", "3", "1", "4", "1", "5", "1", "Exit"] (by decide) (by decide)
    have hvalues : s.calls.values = [1, 5, 1, 1, 1, 1, 1] := by
      rw [Statistics.calls_of_ofVisits hs]
      decide
    have hnan : s.spread ≠ .real .nan := by
      rw [hsound.spread, hvalues]
      decide +kernel
    have hcalls : s.callsOf "2" ≤ s.callsOf "1" := by
      rw [Statistics.callsOf_of_ofVisits hs, Statistics.callsOf_of_ofVisits hs]
      decide
    have hkeys := Statistics.keys_calls_of_ofVisits hs
    exact ⟨s, hs, hnan, hvisits _ s hs hnan "2" (by rw [hkeys]; decide) "1" (by rw [hkeys]; decide)
      hcalls⟩

end VisitGraph
