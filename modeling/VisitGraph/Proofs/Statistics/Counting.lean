import VisitGraph.Printout
import VisitGraph.Proofs.Roster.Tally
import VisitGraph.Proofs.Statistics.Spread

/-! # Statistics of visits

The counts of at most two to the 26th visits have squares that add up to at most 53 binary digits.
Their statistics exist, with mean and spread in floating point. -/

namespace VisitGraph

open Numeric Binary64

theorem Numeric.Quantity.combine_real {q : Quantity} {x : Binary64} (h : q.toReal = .ok x)
    (exact : ℤ → ℤ → ℤ) (rounded : Binary64 → Binary64 → Binary64) (y : Binary64) :
    combine exact rounded q (.real y) = .ok (.real (rounded x y)) := by
  have hcombine : combine exact rounded q (.real y) =
      q.toReal >>= fun x => .ok (.real (rounded x y)) := by
    cases q <;> rfl
  rw [hcombine, h]
  rfl

namespace Band

variable {mean spread : Binary64}

theorem succeeds_threshold (b : Band) : Succeeds (b.threshold (.real mean) (.real spread)) := by
  have hreach : b.reach.natAbs ≤ 2 ^ 53 := by cases b <;> decide
  rw [threshold, Quantity.mul, Quantity.combine_real (Spread.toReal_int hreach)]
  change Succeeds (if b.isAbove then (Quantity.real mean).add (.real _)
    else (Quantity.real mean).sub (.real _))
  split
  · exact ⟨_, Quantity.combine_real rfl _ _ _⟩
  · exact ⟨_, Quantity.combine_real rfl _ _ _⟩

theorem succeeds_firstOf (bands : List Band) (calls : ℤ) :
    Succeeds (firstOf bands (.int calls) (.real mean) (.real spread)) := by
  induction bands with
  | nil => exact ⟨none, rfl⟩
  | cons b bands ih =>
      have hadmits : Succeeds (b.admits (.int calls) (.real mean) (.real spread)) :=
        b.succeeds_threshold.bind fun threshold => ⟨_, rfl⟩
      refine hadmits.bind fun admitted => ?_
      cases admitted with
      | false => exact ih
      | true => exact ⟨some b, rfl⟩

end Band

namespace Statistics

theorem succeeds_bandsOf (calls : Roster String ℤ) (mean spread : Binary64) :
    Succeeds (bandsOf calls (.real mean) (.real spread)) := by
  rw [bandsOf]
  refine Succeeds.bind (Succeeds.mapM fun entry _ => ?_) fun found => ⟨_, rfl⟩
  exact (Band.succeeds_firstOf Band.all entry.2).bind fun band => ⟨_, rfl⟩

/-! ## Counts -/

theorem sum_squares_le (ns : List ℕ) : (ns.map fun n => n * n).sum ≤ ns.sum * ns.sum := by
  induction ns with
  | nil => simp
  | cons n ns ih =>
      have hsquare : (n + ns.sum) * (n + ns.sum) = n * n + ns.sum * ns.sum + 2 * (n * ns.sum) := by
        ring
      rw [List.map_cons, List.sum_cons, List.sum_cons, hsquare]
      omega

variable {ids : List String}

theorem values_tally (ids : List String) : ((Roster.tally ids).map Int.ofNat).values =
    ids.eraseDups.map fun id => Int.ofNat (ids.count id) := by
  simp [Roster.map, Roster.values, Roster.entries_tally]

theorem values_tally_eq_map (ids : List String) : ((Roster.tally ids).map Int.ofNat).values =
    (Roster.tally ids).values.map Int.ofNat := by
  simp [Roster.map, Roster.values]

theorem exact_tally (htwo : 2 ≤ ids.eraseDups.length) (hle : ids.length ≤ 2 ^ 26) :
    Spread.Exact ((Roster.tally ids).map Int.ofNat).values := by
  have hlength : ((Roster.tally ids).map Int.ofNat).values.length = ids.eraseDups.length := by
    rw [values_tally, List.length_map]
  have hsquares : Spread.squares ((Roster.tally ids).map Int.ofNat).values ≤
      ids.length * ids.length := by
    rw [values_tally_eq_map, Spread.squares, List.map_map, ← Roster.sum_values_tally]
    exact sum_squares_le _
  have hbound : ids.length * ids.length ≤ 2 ^ 26 * 2 ^ 26 := Nat.mul_le_mul hle hle
  have hdistinct : ids.eraseDups.length ≤ ids.length := by
    rw [(eraseDups_perm_dedup ids).length_eq]
    exact ids.dedup_sublist.length_le
  refine ⟨?_, ?_, ?_⟩ <;> omega

theorem ofVisits_tooFewNodes (h : ids.eraseDups.length < 2) :
    ofVisits ids = .error (.tooFewNodes ids.eraseDups.length) := by
  rw [ofVisits, Spread.meanAndSpread, List.length_map, values_tally, List.length_map, if_pos h]
  rfl

theorem two_le_of_ofVisits {s : Statistics} (h : ofVisits ids = .ok s) :
    2 ≤ ids.eraseDups.length := by
  by_contra hfew
  rw [ofVisits_tooFewNodes (not_le.mp hfew)] at h
  cases h

/-- The statistics hold the mean and the spread of their call counts, computed in floating point
from exact sums. -/
structure Sound (s : Statistics) : Prop where
  exact : Spread.Exact s.calls.values
  mean : s.mean = .real (Spread.mean (s.calls.values.map ofInt))
  spread : s.spread = .real (Spread.radicand (s.calls.values.map ofInt)).sqrt

theorem exists_sound_ofVisits (htwo : 2 ≤ ids.eraseDups.length) (hle : ids.length ≤ 2 ^ 26) :
    ∃ s, ofVisits ids = .ok s ∧ Sound s := by
  have hexact := exact_tally htwo hle
  have hspread := Spread.meanAndSpread_of_exact hexact
  generalize hcalls : (Roster.tally ids).map Int.ofNat = calls at hexact hspread
  obtain ⟨bands, hbands⟩ := succeeds_bandsOf calls (Spread.mean (calls.values.map ofInt))
    (Spread.radicand (calls.values.map ofInt)).sqrt
  have hvisits : ofVisits ids = .ok ⟨calls, .real (Spread.mean (calls.values.map ofInt)),
      .real (Spread.radicand (calls.values.map ofInt)).sqrt, bands⟩ := by
    simp only [ofVisits, bind_eq_ok, pure_eq_ok, hcalls]
    exact ⟨_, hspread, bands, hbands, rfl⟩
  exact ⟨_, hvisits, hexact, rfl, rfl⟩

theorem sound_of_ofVisits {s : Statistics} (h : ofVisits ids = .ok s) (hle : ids.length ≤ 2 ^ 26) :
    Sound s := by
  obtain ⟨s', hs', hsound⟩ := exists_sound_ofVisits (two_le_of_ofVisits h) hle
  rwa [Except.ok.inj (h.symm.trans hs')]

/-! ## Texts -/

variable {s : Statistics}

theorem Sound.succeeds_summary (h : Sound s) : Succeeds s.summary := by
  rw [summary, h.mean, h.spread]
  exact ⟨_, rfl⟩

theorem Sound.succeeds_printout (h : Sound s) (itinerary : List Routine) :
    Succeeds (Printout.statistics itinerary s) := by
  rw [Printout.statistics, h.mean, h.spread]
  exact ⟨_, rfl⟩

end Statistics

end VisitGraph
