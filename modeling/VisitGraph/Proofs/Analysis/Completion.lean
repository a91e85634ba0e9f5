import VisitGraph.Proofs.Analysis.Parts
import VisitGraph.Proofs.Statistics.Counting
import VisitGraph.Proofs.Transition.Links

/-! # Completion of an analysis

Once a layout and a trace are given, nothing can fail. There are always two nodes, start and exit;
a trace that is not too long has exact sums, so that its statistics exist; and a transition is only
ever a share of the steps it was seen among. -/

namespace VisitGraph

open Numeric

theorem length_collapse_le {α : Type} [DecidableEq α] (xs : List α) :
    (collapse xs).length ≤ xs.length := by
  rw [collapse_eq_destutter]
  exact (xs.destutter_sublist _).length_le

theorem Itinerary.length_ofTrace_le (l : Layout) (samples : List Int) :
    (ofTrace l samples).length ≤ samples.length + 2 := by
  have hcollapse := length_collapse_le (l.hits samples)
  have hhits : (l.hits samples).length ≤ samples.length := List.length_filterMap_le _ _
  rw [ofTrace_eq, interior]
  simp only [List.cons_append, List.length_cons, List.length_append, List.length_nil]
  omega

/-! ## Shares -/

namespace Transition

variable {ids : List String}

theorem Shares.succeeds_shareText {t : Transition} (h : Shares ids t) :
    Succeeds t.probability.shareText := by
  rw [h.probability]
  exact ⟨_, rfl⟩

theorem Shares.length_ne_zero {t : Transition} (h : Shares ids t) :
    (followers ids t.source).length ≠ 0 :=
  (List.length_pos_of_mem h.followed).ne'

theorem shares_of_mem_ofVisits {t : Transition} (h : t ∈ (ofVisits ids).values.flatten) :
    Shares ids t := by
  rw [values_ofVisits, List.mem_flatten] at h
  obtain ⟨ts, hts, ht⟩ := h
  obtain ⟨source, -, rfl⟩ := List.mem_map.mp hts
  exact shares_of_mem_leaving ht

theorem succeeds_adjacency (ids : List String) : Succeeds (Printout.adjacency (ofVisits ids)) := by
  have hline : ∀ entry ∈ (ofVisits ids).entries, Succeeds (Printout.targetsLine entry.2) := by
    intro entry hentry
    have htargets : ∀ t ∈ entry.2, Succeeds (Printout.targetText t) := by
      intro t ht
      have hmem : t ∈ (ofVisits ids).values.flatten :=
        List.mem_flatten_of_mem (List.mem_map_of_mem hentry) ht
      exact (shares_of_mem_ofVisits hmem).succeeds_shareText.bind fun share => ⟨_, rfl⟩
    exact (Succeeds.mapM htargets).bind fun texts => ⟨_, rfl⟩
  have hpairs : ∀ entry ∈ (ofVisits ids).entries,
      Succeeds (do return [entry.1, ← Printout.targetsLine entry.2]) :=
    fun entry hentry => (hline entry hentry).bind fun line => ⟨_, rfl⟩
  exact (Succeeds.mapM hpairs).bind fun pairs => ⟨_, rfl⟩

end Transition

theorem Diagram.succeeds_assemble (name : String) (routines : List Routine) (s : Statistics)
    (ids : List String) : Succeeds (assemble name routines s (Transition.ofVisits ids)) := by
  have harrows : ∀ t ∈ routines.flatMap fun r => ((Transition.ofVisits ids).get? r.id).getD [],
      Succeeds (Arrow.ofTransition t) := by
    intro t ht
    obtain ⟨r, -, ht⟩ := List.mem_flatMap.mp ht
    rw [Transition.get?_ofVisits] at ht
    split at ht
    · exact (Transition.shares_of_mem_leaving ht).succeeds_shareText.bind fun label => ⟨_, rfl⟩
    · exact absurd ht List.not_mem_nil
  exact (Succeeds.mapM harrows).bind fun arrows => ⟨_, rfl⟩

/-! ## Analyses -/

namespace Analysis

/-- The two ends are different nodes of every itinerary. -/
theorem two_le_length_visits (l : Layout) (samples : List Int) :
    2 ≤ (visits l samples).eraseDups.length := by
  have hends : [Routine.start.id, Routine.exit.id].Nodup := by decide
  have hsubset : [Routine.start.id, Routine.exit.id] ⊆ (visits l samples).eraseDups := by
    intro id hid
    rw [List.mem_eraseDups, visits_eq]
    rcases List.mem_cons.mp hid with rfl | hid
    · simp
    · simpa using .inr (.inr (by simpa using hid))
  exact (List.subperm_of_subset hends hsubset).length_le

/-- An analysis with all its numbers and texts: two nodes at least, no minus under the root, and no
transition without a step to share. -/
structure Complete (a : Analysis) : Prop where
  two_nodes : 2 ≤ a.statistics.calls.size
  nodup_nodes : a.statistics.calls.keys.Nodup
  mean : a.statistics.mean = .real (Spread.mean (a.statistics.calls.values.map Binary64.ofInt))
  spread : a.statistics.spread =
    .real (Spread.radicand (a.statistics.calls.values.map Binary64.ofInt)).sqrt
  radicand : ∃ rank,
    Spread.radicand (a.statistics.calls.values.map Binary64.ofInt) = .finite false rank
  shares : ∀ t ∈ a.transitions.values.flatten, Transition.Shares (a.itinerary.map (·.id)) t
  divisors : ∀ t ∈ a.transitions.values.flatten,
    (Transition.followers (a.itinerary.map (·.id)) t.source).length ≠ 0
  summary : Succeeds a.statistics.summary
  statisticsText : Succeeds a.statisticsText
  adjacencyText : Succeeds a.adjacencyText

/-- A trace of this length can be analysed through any layout. -/
theorem exists_complete_ofSamples (name : String) (l : Layout) {samples : List Int}
    (h : samples.length ≤ 2 ^ 26 - 2) :
    ∃ a, ofSamples name l samples = .ok a ∧ Complete a := by
  have hlength : (visits l samples).length ≤ 2 ^ 26 := by
    have hle := Itinerary.length_ofTrace_le l samples
    rw [visits, List.length_map]
    omega
  obtain ⟨s, hs, hsound⟩ :=
    Statistics.exists_sound_ofVisits (two_le_length_visits l samples) hlength
  obtain ⟨d, hd⟩ := Diagram.succeeds_assemble name (Itinerary.ofTrace l samples).eraseDups s
    (visits l samples)
  have hok : ofSamples name l samples = .ok ⟨l, Itinerary.ofTrace l samples,
      (Itinerary.ofTrace l samples).eraseDups, s, Transition.ofVisits (visits l samples), d⟩ := by
    simp only [ofSamples, bind_eq_ok, pure_eq_ok]
    exact ⟨s, hs, d, hd, rfl⟩
  have htwo := hsound.exact.two_le
  rw [Roster.values, List.length_map] at htwo
  have hnodup : s.calls.keys.Nodup := by
    rw [Statistics.keys_calls_of_ofVisits hs]
    exact nodup_eraseDups _
  exact ⟨_, hok, htwo, hnodup, hsound.mean, hsound.spread, hsound.exact.exists_radicand_eq_finite,
    fun t ht => Transition.shares_of_mem_ofVisits ht,
    fun t ht => (Transition.shares_of_mem_ofVisits ht).length_ne_zero, hsound.succeeds_summary,
    hsound.succeeds_printout _, Transition.succeeds_adjacency _⟩

theorem exists_ofSamples (name : String) (l : Layout) {samples : List Int}
    (h : samples.length ≤ 2 ^ 26 - 2) : ∃ a, ofSamples name l samples = .ok a := by
  obtain ⟨a, ha, -⟩ := exists_complete_ofSamples name l h
  exact ⟨a, ha⟩

end Analysis

end VisitGraph
