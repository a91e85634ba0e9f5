import VisitGraph.Proofs.Analysis.Completion

/-! # One order of nodes

Distinct routines, call counts, transitions and the nodes of the diagram are computed apart, and all
by first occurrence. They list the same nodes in the same order because the ids of a loaded layout
tell the routines of an itinerary apart. -/

namespace VisitGraph

/-- The arrow shows the transition: its ends, its probability and its emphasis. -/
structure Arrow.Depicts (t : Transition) (w : Arrow) : Prop where
  source : w.source = t.source
  target : w.target = t.target
  label : t.probability.shareText = .ok w.label
  color : w.color? = t.emphasis.color?

theorem Arrow.ofTransition_eq_ok {t : Transition} {w : Arrow} :
    ofTransition t = .ok w ↔ Depicts t w := by
  simp only [ofTransition, bind_eq_ok, pure_eq_ok]
  constructor
  · rintro ⟨label, hlabel, rfl⟩
    exact ⟨rfl, rfl, hlabel, rfl⟩
  · obtain ⟨source, target, label, color?⟩ := w
    rintro ⟨rfl, rfl, hlabel, rfl⟩
    exact ⟨label, hlabel, rfl⟩

theorem Diagram.assemble_eq_ok {name : String} {routines : List Routine} {s : Statistics}
    {transitions : Roster String (List Transition)} {d : Diagram} :
    assemble name routines s transitions = .ok d ↔
      d.name = name ∧ d.nodes = routines.map (Node.ofRoutine s) ∧
        List.Forall₂ Arrow.Depicts
          (routines.flatMap fun r => (transitions.get? r.id).getD []) d.arrows := by
  simp only [assemble, bind_eq_ok, pure_eq_ok, mapM_eq_ok, Arrow.ofTransition_eq_ok]
  constructor
  · rintro ⟨arrows, harrows, rfl⟩
    exact ⟨rfl, rfl, harrows⟩
  · obtain ⟨name, nodes, arrows⟩ := d
    rintro ⟨rfl, rfl, harrows⟩
    exact ⟨arrows, harrows, rfl⟩

namespace Analysis

variable {first : Int} {entries : List Entry} {l : Layout}

/-- On an itinerary, too, routines are told apart by their ids. -/
theorem eq_of_id_eq_of_mem_ofTrace (h : Layout.load first entries = .ok l) {samples : List Int}
    {r r' : Routine} (hr : r ∈ Itinerary.ofTrace l samples)
    (hr' : r' ∈ Itinerary.ofTrace l samples) (hid : r.id = r'.id) : r = r' := by
  have hends : Routine.start.id ≠ Routine.exit.id := by decide
  have hstart : ∀ q ∈ Itinerary.interior l samples, q.id ≠ Routine.start.id := fun q hq =>
    Layout.id_ne_start_of_load h (Itinerary.mem_routines_of_mem_interior hq)
  have hexit : ∀ q ∈ Itinerary.interior l samples, q.id ≠ Routine.exit.id := fun q hq =>
    Layout.id_ne_exit_of_load h (Itinerary.mem_routines_of_mem_interior hq)
  rw [Itinerary.ofTrace_eq] at hr hr'
  simp only [List.cons_append, List.mem_cons, List.mem_append, List.not_mem_nil, or_false]
    at hr hr'
  rcases hr with rfl | hr | rfl
  · rcases hr' with rfl | hr' | rfl
    · rfl
    · exact (hstart r' hr' hid.symm).elim
    · exact (hends hid).elim
  · rcases hr' with rfl | hr' | rfl
    · exact (hstart r hr hid).elim
    · exact Layout.eq_of_id_eq_of_load h (Itinerary.mem_routines_of_mem_interior hr)
        (Itinerary.mem_routines_of_mem_interior hr') hid
    · exact (hexit r hr hid).elim
  · rcases hr' with rfl | hr' | rfl
    · exact (hends hid.symm).elim
    · exact (hexit r' hr' hid.symm).elim
    · rfl

theorem map_id_eraseDups_ofTrace (h : Layout.load first entries = .ok l) (samples : List Int) :
    (Itinerary.ofTrace l samples).eraseDups.map (·.id) = (visits l samples).eraseDups := by
  refine (eraseDups_map_of_injOn ?_).symm
  intro r hr r' hr' hid
  exact eq_of_id_eq_of_mem_ofTrace h hr hr' hid

/-- The ids of the itinerary in the order of their first occurrence. -/
def order (a : Analysis) : List String :=
  (a.itinerary.map (·.id)).eraseDups

/-- Every part of the analysis has its nodes in this order, each once; the arrows are those of the
transitions in the same order, and the labels of the nodes tell how often each one occurs. -/
structure Ordered (a : Analysis) : Prop where
  nodup : a.order.Nodup
  distinct : a.distinct.map (·.id) = a.order
  calls : a.statistics.calls.keys = a.order
  transitions : a.transitions.keys = a.order
  nodes : a.diagram.nodes.map (·.id) = a.order
  arrows : List.Forall₂ Arrow.Depicts a.transitions.values.flatten a.diagram.arrows
  labels : ∀ n ∈ a.diagram.nodes, n.label = s!"{n.id}({(a.itinerary.map (·.id)).count n.id})"

theorem ordered_of_parts (h : Layout.load first entries = .ok l) {name : String}
    {samples : List Int} {a : Analysis} (ha : Parts name l samples a) : Ordered a := by
  have hitinerary : a.itinerary.map (·.id) = visits l samples := by
    rw [ha.itinerary, visits]
  have horder : a.order = (visits l samples).eraseDups := by
    rw [order, hitinerary]
  have hdistinct : a.distinct.map (·.id) = a.order := by
    rw [ha.distinct, map_id_eraseDups_ofTrace h, horder]
  obtain ⟨-, hnodes, harrows⟩ := Diagram.assemble_eq_ok.mp ha.diagram
  refine ⟨nodup_eraseDups _, hdistinct, ?_, ?_, ?_, ?_, ?_⟩
  · rw [Statistics.keys_calls_of_ofVisits ha.statistics, horder]
  · rw [ha.transitions, Transition.keys_ofVisits, horder]
  · rw [hnodes, List.map_map, ← hdistinct]
    rfl
  · have hleaving : (a.distinct.flatMap fun r => (a.transitions.get? r.id).getD []) =
        a.transitions.values.flatten := by
      have hids : (a.distinct.flatMap fun r => (a.transitions.get? r.id).getD []) =
          a.order.flatMap fun id => (a.transitions.get? id).getD [] := by
        rw [← hdistinct, List.flatMap_map]
      rw [hids, horder, ha.transitions, Transition.values_ofVisits, ← List.flatMap_def]
      refine List.flatMap_congr fun id hid => ?_
      rw [Transition.get?_ofVisits, if_pos (List.mem_eraseDups.mp hid), Option.getD_some]
    rwa [hleaving] at harrows
  · intro n hn
    rw [hnodes] at hn
    obtain ⟨r, -, rfl⟩ := List.mem_map.mp hn
    rw [hitinerary, Node.ofRoutine, Statistics.callsOf_of_ofVisits ha.statistics]
    rfl

/-- An analysis through a loaded layout is in order, and there is one for every trace that is not
too long for exact sums. -/
theorem ordered_ofSamples (h : Layout.load first entries = .ok l) (name : String)
    (samples : List Int) :
    (∀ a, ofSamples name l samples = .ok a → Ordered a) ∧
      (samples.length ≤ 2 ^ 26 - 2 → ∃ a, ofSamples name l samples = .ok a) := by
  constructor
  · intro a ha
    exact ordered_of_parts h (parts_of_ofSamples ha)
  · exact exists_ofSamples name l

/-- A routine listed twice, and one that overlaps it; ids count up from below zero. -/
theorem ordered_ofSamples_overlap :
    ∃ l a, Layout.load (-1) [⟨"f", 0, 15⟩, ⟨"f", 0, 15⟩, ⟨"g", 10, 20⟩] = .ok l ∧
      ofSamples "overlap" l [12, 25, 3, 99, 25] = .ok a ∧ Ordered a := by
  have hload : Layout.load (-1) [⟨"f", 0, 15⟩, ⟨"f", 0, 15⟩, ⟨"g", 10, 20⟩] =
      .ok ⟨[⟨"-1", "f", some 0, some 15⟩, ⟨"0", "f", some 0, some 15⟩,
        ⟨"1", "g", some 10, some 30⟩]⟩ := rfl
  have hordered := ordered_ofSamples hload "overlap" [12, 25, 3, 99, 25]
  obtain ⟨a, ha⟩ := hordered.2 (by decide)
  exact ⟨_, a, hload, ha, hordered.1 a ha⟩

end VisitGraph.Analysis
