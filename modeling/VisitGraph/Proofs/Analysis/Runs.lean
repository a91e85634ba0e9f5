import VisitGraph.Proofs.Analysis.Interior

/-! # Calls are runs

An analysis sees of a trace only the runs of its hits. A routine is called once for each of them;
samples that hit nothing, and samples that only go on with a run, change nothing. -/

namespace VisitGraph

namespace Layout

/-- The samples that lie in some routine. -/
def located (l : Layout) (samples : List Int) : List Int :=
  samples.filter fun address => (l.locate address).isSome

theorem hits_located (l : Layout) (samples : List Int) :
    l.hits (l.located samples) = l.hits samples := by
  rw [hits, hits, located, List.filterMap_filter]
  refine List.filterMap_congr fun address _ => ?_
  cases l.locate address <;> rfl

theorem hits_append (l : Layout) (samples samples' : List Int) :
    l.hits (samples ++ samples') = l.hits samples ++ l.hits samples' :=
  List.filterMap_append

end Layout

namespace Analysis

open Itinerary

variable {first : Int} {entries : List Entry} {l : Layout}

theorem ofSamples_congr (name : String) {samples samples' : List Int}
    (h : collapse (l.hits samples) = collapse (l.hits samples')) :
    ofSamples name l samples = ofSamples name l samples' := by
  rw [ofSamples, ofSamples, ofTrace_eq, ofTrace_eq, Itinerary.interior, Itinerary.interior, h]

/-- A sample goes on with the run of another one, if nothing was hit in between. -/
theorem collapse_hits_again {block again : Int} (hagain : l.locate again = l.locate block)
    {between : List Int} (hbetween : ∀ address ∈ between, l.locate address = none)
    (before after : List Int) :
    collapse (l.hits (before ++ block :: between ++ again :: after)) =
      collapse (l.hits (before ++ block :: between ++ after)) := by
  have hnone : between.filterMap l.locate = [] := List.filterMap_eq_nil_iff.mpr hbetween
  simp only [Layout.hits, List.append_assoc, List.cons_append, List.filterMap_append,
    List.filterMap_cons, hnone, hagain, List.nil_append]
  refine collapse_append_congr _ ?_
  cases l.locate block with
  | none => rfl
  | some r => exact collapse_cons_of_eq rfl

/-- Each routine of a loaded layout is called as often as the hits have a run of it, whether counted
on the itinerary or read from an analysis. Neither misses nor repeated samples change anything: with
one of them, or with all the misses, left out the outcome is the same. There is an analysis of every
trace that is not too long for exact sums. -/
theorem callsOf_eq_runs (h : Layout.load first entries = .ok l) (name : String)
    (samples : List Int) :
    (∀ f ∈ l.routines,
      ((Roster.tally (visits l samples)).get? f.id).getD 0 = runs f (l.hits samples) ∧
        ∀ a, ofSamples name l samples = .ok a →
          a.statistics.callsOf f.id = runs f (l.hits samples)) ∧
    ofSamples name l (l.located samples) = ofSamples name l samples ∧
    (∀ before address after, samples = before ++ address :: after → l.locate address = none →
      ofSamples name l (before ++ after) = ofSamples name l samples) ∧
    (∀ before block between again after,
      samples = before ++ block :: between ++ again :: after → l.locate again = l.locate block →
        (∀ address ∈ between, l.locate address = none) →
          ofSamples name l (before ++ block :: between ++ after) = ofSamples name l samples) ∧
    (samples.length ≤ 2 ^ 26 - 2 → ∃ a, ofSamples name l samples = .ok a) := by
  refine ⟨?_, ?_, ?_, ?_, exists_ofSamples name l⟩
  · intro f hf
    have hcount : (visits l samples).count f.id = runs f (l.hits samples) := by
      rw [count_visits h samples hf, Itinerary.interior, count_collapse]
    refine ⟨?_, ?_⟩
    · rw [Roster.getD_get?_tally, hcount]
    · intro a ha
      rw [Statistics.callsOf_of_ofVisits (parts_of_ofSamples ha).statistics, hcount]
  · exact ofSamples_congr name (by rw [Layout.hits_located])
  · rintro before address after rfl hmiss
    have hafter : l.hits (address :: after) = l.hits after := List.filterMap_cons_none hmiss
    exact ofSamples_congr name (by rw [Layout.hits_append, Layout.hits_append, hafter])
  · rintro before block between again after rfl hagain hbetween
    exact ofSamples_congr name (collapse_hits_again hagain hbetween before after).symm

/-- Two runs of one routine, the first of them interrupted by a miss. -/
theorem callsOf_eq_runs_miss :
    ∃ l a, Layout.load 1 [⟨"f", 0, 15⟩, ⟨"g", 16, 15⟩] = .ok l ∧
      ofSamples "miss" l [3, 99, 4, 20, 77, 5] = .ok a ∧ a.statistics.callsOf "1" = 2 ∧
      ofSamples "miss" l [3, 4, 20, 5] = .ok a ∧ ofSamples "miss" l [3, 4, 20, 77, 5] = .ok a ∧
      ofSamples "miss" l [3, 99, 20, 77, 5] = .ok a := by
  have hload : Layout.load 1 [⟨"f", 0, 15⟩, ⟨"g", 16, 15⟩] =
      .ok ⟨[⟨"1", "f", some 0, some 15⟩, ⟨"2", "g", some 16, some 31⟩]⟩ := rfl
  obtain ⟨hcalls, hlocated, hmiss, hagain, hsome⟩ :=
    callsOf_eq_runs hload "miss" [3, 99, 4, 20, 77, 5]
  obtain ⟨a, ha⟩ := hsome (by decide)
  refine ⟨_, a, hload, ha, ?_, ?_, ?_, ?_⟩
  · exact (hcalls ⟨"1", "f", some 0, some 15⟩ (by decide)).2 a ha
  · exact hlocated.trans ha
  · exact (hmiss [3] 99 [4, 20, 77, 5] rfl rfl).trans ha
  · exact (hagain [] 3 [99] 4 [20, 77, 5] rfl rfl (by decide)).trans ha

end Analysis

end VisitGraph
