import VisitGraph.Proofs.Roster.Renaming
import VisitGraph.Proofs.Transition.Links

/-! # Transitions between renamed nodes

The names of the nodes play no part in the transitions: if the nodes are renamed, so are the ends of
the transitions, and their order, counts, probabilities and emphasis stay. -/

namespace VisitGraph.Transition

/-- The same transition between renamed nodes. -/
def rename (ρ : String → String) (t : Transition) : Transition :=
  { t with source := ρ t.source, target := ρ t.target }

theorem emphasise_rename (ρ : String → String) (ts : List Transition) :
    emphasise (ts.map (rename ρ)) = (emphasise ts).map (rename ρ) := by
  have hcounts : (ts.map (rename ρ)).map (·.count) = ts.map (·.count) := by
    rw [List.map_map]
    rfl
  rw [emphasise, emphasise, hcounts, List.map_map, List.map_map]
  rfl

variable {ρ : String → String}

theorem followers_map (hρ : Function.Injective ρ) (ids : List String) (source : String) :
    followers (ids.map ρ) (ρ source) = (followers ids source).map ρ := by
  rw [followers, followers, ← List.map_tail, List.zip_map, List.filterMap_map, List.map_filterMap]
  refine List.filterMap_congr fun step _ => ?_
  by_cases h : step.1 = source
  · simp [h]
  · simp [h, hρ.ne h]

theorem group_map (hρ : Function.Injective ρ) (source : String) (targets : List String) :
    group (ρ source) (targets.map ρ) = (group source targets).map (rename ρ) := by
  rw [group, group, Roster.tally_map hρ, Roster.rename, List.map_map, List.map_map]
  refine List.map_congr_left fun entry _ => ?_
  simp [rename]

theorem leaving_map (hρ : Function.Injective ρ) (ids : List String) (source : String) :
    leaving (ids.map ρ) (ρ source) = (leaving ids source).map (rename ρ) := by
  rw [leaving, followers_map hρ, group_map hρ, emphasise_rename, leaving]

theorem ofVisits_map (hρ : Function.Injective ρ) (ids : List String) :
    ofVisits (ids.map ρ) = ((ofVisits ids).map (List.map (rename ρ))).rename ρ := by
  rw [ofVisits_eq, ofVisits_eq, eraseDups_map_of_injOn fun _ _ _ _ h => hρ h]
  simp only [Roster.map, Roster.rename, List.map_map, Roster.mk.injEq]
  refine List.map_congr_left fun source _ => ?_
  simp [leaving_map hρ]

end VisitGraph.Transition
