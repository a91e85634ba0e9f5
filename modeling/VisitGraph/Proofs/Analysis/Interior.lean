import VisitGraph.Proofs.Analysis.Order
import VisitGraph.Proofs.Itinerary.Pieces

/-! # Counts in the interior

The ids of a loaded layout tell its routines apart and from the ends of an itinerary. Calls of a
routine and steps between two routines are therefore counted in the interior, by the routines. -/

namespace VisitGraph

theorem Itinerary.tail_dropLast_ofTrace (l : Layout) (samples : List Int) :
    (ofTrace l samples).tail.dropLast = interior l samples := by
  rw [ofTrace_eq, List.cons_append, List.tail_cons, List.dropLast_concat]

namespace Analysis

open Itinerary

variable {first : Int} {entries : List Entry} {l : Layout} {f g : Routine}

theorem count_visits (h : Layout.load first entries = .ok l) (samples : List Int)
    (hf : f ∈ l.routines) :
    (visits l samples).count f.id = (Itinerary.interior l samples).count f := by
  have hinterior : ((Itinerary.interior l samples).map (·.id)).count f.id =
      (Itinerary.interior l samples).count f :=
    count_map_of_injOn fun r hr hid =>
      Layout.eq_of_id_eq_of_load h (mem_routines_of_mem_interior hr) hf hid
  rw [visits_eq, List.cons_append, List.count_cons_of_ne (Layout.id_ne_start_of_load h hf).symm,
    List.count_append, List.count_singleton, hinterior]
  simpa using (Layout.id_ne_exit_of_load h hf).symm

theorem count_steps_visits (h : Layout.load first entries = .ok l) (samples : List Int)
    (hf : f ∈ l.routines) (hg : g ∈ l.routines) :
    (Transition.steps (visits l samples)).count (f.id, g.id) =
      ((Itinerary.interior l samples).zip (Itinerary.interior l samples).tail).count (f, g) := by
  have hinj : ∀ p ∈ (Itinerary.interior l samples).zip (Itinerary.interior l samples).tail,
      Prod.map Routine.id Routine.id p = Prod.map Routine.id Routine.id (f, g) → p = (f, g) := by
    rintro ⟨r, r'⟩ hmem hids
    obtain ⟨hr, hr'⟩ := List.of_mem_zip hmem
    have hr := mem_routines_of_mem_interior hr
    have hr' := mem_routines_of_mem_interior (List.mem_of_mem_tail hr')
    obtain ⟨hid, hid'⟩ := Prod.mk.inj hids
    exact Prod.ext (Layout.eq_of_id_eq_of_load h hr hf hid)
      (Layout.eq_of_id_eq_of_load h hr' hg hid')
  have hpairs : (Transition.steps ((Itinerary.interior l samples).map (·.id))).count (f.id, g.id) =
      ((Itinerary.interior l samples).zip (Itinerary.interior l samples).tail).count (f, g) := by
    rw [Transition.steps, ← List.map_tail, List.zip_map]
    exact count_map_of_injOn hinj
  -- Neither the step from start nor the step to exit joins two routines of the layout.
  have hstart : ¬ ([Routine.start.id].getLast? = some f.id ∧
      ((Itinerary.interior l samples).map (·.id)).head? = some g.id) := by
    rintro ⟨hid, -⟩
    exact Layout.id_ne_start_of_load h hf (Option.some.inj hid).symm
  have hexit : ¬ (([Routine.start.id] ++
      (Itinerary.interior l samples).map (·.id)).getLast? = some f.id ∧
      [Routine.exit.id].head? = some g.id) := by
    rintro ⟨-, hid⟩
    exact Layout.id_ne_exit_of_load h hg (Option.some.inj hid).symm
  have hvisits : visits l samples =
      [Routine.start.id] ++ (Itinerary.interior l samples).map (·.id) ++ [Routine.exit.id] :=
    visits_eq l samples
  rw [hvisits, Transition.steps, count_neighbours_append, if_neg hexit, count_neighbours_append,
    if_neg hstart, hpairs]
  simp

end Analysis

end VisitGraph
