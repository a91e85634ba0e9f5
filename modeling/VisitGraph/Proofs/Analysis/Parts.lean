import VisitGraph.Analysis
import VisitGraph.Proofs.Itinerary.Outline
import VisitGraph.Proofs.Layout.Loading
import VisitGraph.Proofs.Roster.Tally

/-! # The parts of an analysis

An analysis that is given out consists of what the single computations give for its itinerary. -/

namespace VisitGraph

theorem Roster.get?_map {κ α β : Type} [DecidableEq κ] (r : Roster κ α) (f : α → β) (k : κ) :
    (r.map f).get? k = (r.get? k).map f := by
  obtain ⟨entries⟩ := r
  simp only [Roster.map, Roster.get?]
  induction entries with
  | nil => rfl
  | cons entry entries ih =>
      obtain ⟨k', a⟩ := entry
      rw [List.map_cons, List.lookup_cons, List.lookup_cons, ih]
      cases k == k' <;> rfl

namespace Statistics

theorem calls_of_ofVisits {ids : List String} {s : Statistics} (h : ofVisits ids = .ok s) :
    s.calls = (Roster.tally ids).map Int.ofNat := by
  simp only [ofVisits, bind_eq_ok, pure_eq_ok] at h
  obtain ⟨-, -, bands, -, rfl⟩ := h
  rfl

theorem keys_calls_of_ofVisits {ids : List String} {s : Statistics} (h : ofVisits ids = .ok s) :
    s.calls.keys = ids.eraseDups := by
  rw [calls_of_ofVisits h, ← Roster.keys_tally, Roster.keys, Roster.keys, Roster.map, List.map_map]
  rfl

theorem callsOf_of_ofVisits {ids : List String} {s : Statistics} (h : ofVisits ids = .ok s)
    (id : String) : s.callsOf id = ids.count id := by
  rw [callsOf, calls_of_ofVisits h, Roster.get?_map, ← Roster.getD_get?_tally]
  cases (Roster.tally ids).get? id <;> rfl

end Statistics

namespace Analysis

/-- The ids of an itinerary through a layout. -/
def visits (l : Layout) (samples : List Int) : List String :=
  (Itinerary.ofTrace l samples).map (·.id)

theorem visits_eq (l : Layout) (samples : List Int) :
    visits l samples =
      Routine.start.id :: (Itinerary.interior l samples).map (·.id) ++ [Routine.exit.id] := by
  rw [visits, Itinerary.ofTrace_eq]
  simp

theorem start_id_notMem_interior {first : Int} {entries : List Entry} {l : Layout}
    (h : Layout.load first entries = .ok l) (samples : List Int) :
    Routine.start.id ∉ (Itinerary.interior l samples).map (·.id) := by
  intro hmem
  obtain ⟨r, hr, hid⟩ := List.mem_map.mp hmem
  exact Layout.id_ne_start_of_load h (Itinerary.mem_routines_of_mem_interior hr) hid

theorem exit_id_notMem_interior {first : Int} {entries : List Entry} {l : Layout}
    (h : Layout.load first entries = .ok l) (samples : List Int) :
    Routine.exit.id ∉ (Itinerary.interior l samples).map (·.id) := by
  intro hmem
  obtain ⟨r, hr, hid⟩ := List.mem_map.mp hmem
  exact Layout.id_ne_exit_of_load h (Itinerary.mem_routines_of_mem_interior hr) hid

/-- What each part of an analysis is computed from. -/
structure Parts (name : String) (l : Layout) (samples : List Int) (a : Analysis) : Prop where
  layout : a.layout = l
  itinerary : a.itinerary = Itinerary.ofTrace l samples
  distinct : a.distinct = (Itinerary.ofTrace l samples).eraseDups
  statistics : Statistics.ofVisits (visits l samples) = .ok a.statistics
  transitions : a.transitions = Transition.ofVisits (visits l samples)
  diagram : Diagram.assemble name a.distinct a.statistics a.transitions = .ok a.diagram

theorem parts_of_ofSamples {name : String} {l : Layout} {samples : List Int} {a : Analysis}
    (h : ofSamples name l samples = .ok a) : Parts name l samples a := by
  simp only [ofSamples, bind_eq_ok, pure_eq_ok] at h
  obtain ⟨s, hs, d, hd, rfl⟩ := h
  exact ⟨rfl, rfl, rfl, hs, rfl, hd⟩

theorem Parts.callsOf_eq {name : String} {l : Layout} {samples : List Int} {a : Analysis}
    (h : Parts name l samples a) :
    a.statistics.callsOf = fun id => ((visits l samples).count id : Int) := by
  funext id
  exact Statistics.callsOf_of_ofVisits h.statistics id

end VisitGraph.Analysis
