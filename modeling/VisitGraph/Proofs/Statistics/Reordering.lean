import VisitGraph.Proofs.Numeric.Signed
import VisitGraph.Proofs.Statistics.Banding

/-! # Statistics without an order

Where the sums are exact, nothing in the mean and the spread depends on the order of the values. So
what the statistics tell of each node does not depend on the order in which nodes were visited. -/

namespace VisitGraph

/-! ## Reordered values -/

namespace Spread

open Numeric Binary64

variable {xs ys : List ℤ}

theorem squares_perm (h : xs.Perm ys) : squares xs = squares ys :=
  (h.map _).sum_eq

theorem Exact.perm (h : Exact xs) (hperm : xs.Perm ys) : Exact ys where
  two_le := hperm.length_eq ▸ h.two_le
  length_le := hperm.length_eq ▸ h.length_le
  squares_le := squares_perm hperm ▸ h.squares_le

theorem Exact.mean_perm (h : Exact xs) (hperm : xs.Perm ys) :
    mean (xs.map ofInt) = mean (ys.map ofInt) := by
  rw [h.mean_eq, (h.perm hperm).mean_eq, hperm.sum_eq, hperm.length_eq]

theorem Exact.radicand_perm (h : Exact xs) (hperm : xs.Perm ys) :
    radicand (xs.map ofInt) = radicand (ys.map ofInt) := by
  rw [h.radicand_eq, (h.perm hperm).radicand_eq, squares_perm hperm, hperm.length_eq,
    h.mean_perm hperm]

theorem meanAndSpread_perm (h : Exact xs) (hperm : xs.Perm ys) :
    meanAndSpread (xs.map .int) = meanAndSpread (ys.map .int) := by
  rw [meanAndSpread_of_exact h, meanAndSpread_of_exact (h.perm hperm), h.mean_perm hperm,
    h.radicand_perm hperm]

theorem Exact.isNearest_mean (h : Exact xs) :
    (mean (xs.map ofInt)).IsNearest (xs.sum / xs.length) := by
  have hsum := (natAbs_sum_le xs).trans ((sum_natAbs_le_squares xs).trans h.squares_le)
  have htwo := h.two_le
  rw [h.mean_eq]
  exact isNearest_ofRatio_int (by omega) hsum

end Spread

/-! ## Reordered visits -/

namespace Statistics

open Numeric Binary64

variable {ids ids' : List String}

/-- What statistics tell of the whole and of each node, in no order. -/
structure Findings where
  mean : Quantity
  spread : Quantity
  callsOf : String → Int
  bandOf : String → Option Band

/-- What the statistics tell. -/
def findings (s : Statistics) : Findings :=
  ⟨s.mean, s.spread, s.callsOf, s.bandOf⟩

theorem tally_values_perm (h : ids.Perm ids') :
    ((Roster.tally ids).map Int.ofNat).values.Perm ((Roster.tally ids').map Int.ofNat).values := by
  have hkeys : ids.eraseDups.Perm ids'.eraseDups :=
    ((eraseDups_perm_dedup ids).trans h.dedup).trans (eraseDups_perm_dedup ids').symm
  rw [values_tally, values_tally]
  simp only [h.count_eq]
  exact hkeys.map _

theorem bandOf_eq_none {s : Statistics} (h : ofVisits ids = .ok s) {id : String}
    (hid : id ∉ s.calls.keys) : s.bandOf id = none := by
  obtain ⟨band, -, hbands⟩ := exists_band_of_ofVisits h
  rw [bandOf, hbands, Roster.get?_mk_filterMap, if_neg hid]

/-- The same calls, mean and spread have the same bands. -/
theorem findings_eq {s s' : Statistics} (h : ofVisits ids = .ok s) (h' : ofVisits ids' = .ok s')
    (hperm : ids.Perm ids') (hmean : s.mean = s'.mean) (hspread : s.spread = s'.spread) :
    s.findings = s'.findings := by
  have hcalls : s.callsOf = s'.callsOf := by
    funext id
    rw [callsOf_of_ofVisits h, callsOf_of_ofVisits h', hperm.count_eq]
  have hkeys : ∀ id, id ∈ s.calls.keys ↔ id ∈ s'.calls.keys := fun id => by
    rw [keys_calls_of_ofVisits h, keys_calls_of_ofVisits h', List.mem_eraseDups,
      List.mem_eraseDups, hperm.mem_iff]
  have hbands : s.bandOf = s'.bandOf := by
    funext id
    by_cases hid : id ∈ s.calls.keys
    · have hband := (bandOf_of_ofVisits h).1 id hid
      have hband' := (bandOf_of_ofVisits h').1 id ((hkeys id).mp hid)
      rw [hcalls, hmean, hspread, hband'] at hband
      exact (Except.ok.inj hband).symm
    · rw [bandOf_eq_none h hid, bandOf_eq_none h' (mt (hkeys id).mpr hid)]
  rw [findings, findings, hmean, hspread, hcalls, hbands]

/-- Visits in another order have the same findings, and fail alike. -/
theorem findings_ofVisits_perm (hperm : ids.Perm ids') (hlength : ids.length ≤ 2 ^ 26) :
    (ofVisits ids).map findings = (ofVisits ids').map findings := by
  have hkeys : ids.eraseDups.length = ids'.eraseDups.length := by
    rw [(eraseDups_perm_dedup ids).length_eq, (eraseDups_perm_dedup ids').length_eq,
      hperm.dedup.length_eq]
  rcases Nat.lt_or_ge ids.eraseDups.length 2 with hfew | htwo
  · rw [ofVisits_tooFewNodes hfew, ofVisits_tooFewNodes (hkeys ▸ hfew), hkeys]
  · obtain ⟨s, hs, hsound⟩ := exists_sound_ofVisits htwo hlength
    obtain ⟨s', hs', hsound'⟩ :=
      exists_sound_ofVisits (hkeys ▸ htwo) (hperm.length_eq ▸ hlength)
    have hvalues : s.calls.values.Perm s'.calls.values := by
      rw [calls_of_ofVisits hs, calls_of_ofVisits hs']
      exact tally_values_perm hperm
    have hmean : s.mean = s'.mean := by
      rw [hsound.mean, hsound'.mean, hsound.exact.mean_perm hvalues]
    have hspread : s.spread = s'.spread := by
      rw [hsound.spread, hsound'.spread, hsound.exact.radicand_perm hvalues]
    rw [hs, hs']
    exact congrArg Except.ok (findings_eq hs hs' hperm hmean hspread)

end Statistics

/-- The mean of integers with exact sums is the number nearest to their exact mean, and the order of
the integers changes neither mean nor spread. So for fewer than two to the 26th visits, the order in
which nodes are visited changes none of the findings. -/
theorem statistics_unordered :
    (∀ xs : List ℤ, Spread.Exact xs →
      ∃ mean spread, Spread.meanAndSpread (xs.map .int) = .ok (mean, spread) ∧
        mean.IsNearest (xs.sum / xs.length) ∧
        ∀ ys, xs.Perm ys → Spread.meanAndSpread (ys.map .int) = .ok (mean, spread)) ∧
    ∀ ids ids' : List String, ids.Perm ids' → ids.length < 2 ^ 26 →
      (Statistics.ofVisits ids).map Statistics.findings =
        (Statistics.ofVisits ids').map Statistics.findings := by
  constructor
  · intro xs h
    have hmean := Spread.meanAndSpread_of_exact h
    refine ⟨_, _, hmean, h.isNearest_mean, fun ys hperm => ?_⟩
    rw [← Spread.meanAndSpread_perm h hperm, hmean]
  · exact fun ids ids' hperm hlength => Statistics.findings_ofVisits_perm hperm hlength.le

/-- A mean of one third has to be rounded, and a node is visited first or later. -/
theorem statistics_unordered_mixed :
    (∃ mean spread, Spread.meanAndSpread ([1, -2, 2].map .int) = .ok (mean, spread) ∧
      mean.IsNearest (1 / 3) ∧
      Spread.meanAndSpread ([2, 1, -2].map .int) = .ok (mean, spread)) ∧
    (Statistics.ofVisits ["2", "1", "3", "1"]).map Statistics.findings =
      (Statistics.ofVisits ["1", "2", "1", "3"]).map Statistics.findings := by
  obtain ⟨hvalues, hvisits⟩ := statistics_unordered
  obtain ⟨mean, spread, hmean, hnearest, hperm⟩ :=
    hvalues [1, -2, 2] ⟨by decide, by decide, by decide⟩
  refine ⟨⟨mean, spread, hmean, ?_, hperm [2, 1, -2] (by decide)⟩,
    hvisits _ _ (by decide) (by decide)⟩
  have hthird : (([1, -2, 2] : List ℤ).sum / ([1, -2, 2] : List ℤ).length : ℚ) = 1 / 3 := by
    norm_num
  rwa [hthird] at hnearest

end VisitGraph
