import VisitGraph.Proofs.Analysis.Order

/-! # Well-formed diagrams

Assembling a diagram checks nothing. That the diagram of an itinerary is well formed comes from the
itinerary: its ends occur once each, no routine follows itself, and the transitions between two
nodes are counted together. -/

namespace VisitGraph

/-- The nodes that an arrow joins. -/
def Arrow.ends (w : Arrow) : String × String :=
  (w.source, w.target)

/-- A simple directed graph with a source and a sink, and no other node without an arrow to it or
from it. The arrows are found by their ends. -/
structure Diagram.WellFormed (d : Diagram) : Prop where
  nodup_nodes : (d.nodes.map (·.id)).Nodup
  closed : ∀ w ∈ d.arrows, w.source ∈ d.nodes.map (·.id) ∧ w.target ∈ d.nodes.map (·.id)
  nodup_arrows : (d.arrows.map Arrow.ends).Nodup
  entries_between : d.arrowBetween.entries = d.arrows.map fun w => (w.ends, w)
  get_between : ∀ w ∈ d.arrows, d.arrowBetween.get? w.ends = some w
  no_loop : ∀ w ∈ d.arrows, w.source ≠ w.target
  not_to_start : ∀ w ∈ d.arrows, w.target ≠ Routine.start.id
  not_from_exit : ∀ w ∈ d.arrows, w.source ≠ Routine.exit.id
  entered : ∀ n ∈ d.nodes, n.id ≠ Routine.start.id → ∃ w ∈ d.arrows, w.target = n.id
  exited : ∀ n ∈ d.nodes, n.id ≠ Routine.exit.id → ∃ w ∈ d.arrows, w.source = n.id

/-- Start is left by one arrow, for the one time that it is left. -/
def Analysis.DepartsOnce (a : Analysis) : Prop :=
  ∃ t w, a.transitions.get? Routine.start.id = some [t] ∧
    a.diagram.arrowsFrom Routine.start.id = [w] ∧ w.source = t.source ∧ w.target = t.target ∧
      t.count = 1 ∧ t.emphasis = .sole ∧ w.color? = Emphasis.sole.color?

theorem map_ends_of_depicts {ts : List Transition} {ws : List Arrow}
    (h : List.Forall₂ Arrow.Depicts ts ws) : ws.map Arrow.ends = ts.map Transition.ends := by
  induction h with
  | nil => rfl
  | cons hw _ ih =>
      rw [List.map_cons, List.map_cons, ih, Arrow.ends, Transition.ends, hw.source, hw.target]

/-- Arrows with different ends are found by them. -/
theorem Diagram.entries_arrowBetween {d : Diagram} (h : (d.arrows.map Arrow.ends).Nodup) :
    d.arrowBetween.entries = d.arrows.map fun w => (w.ends, w) := by
  refine Roster.entries_ofList ?_
  rw [List.map_map]
  exact h

theorem Diagram.get?_arrowBetween {d : Diagram} (h : (d.arrows.map Arrow.ends).Nodup) {w : Arrow}
    (hw : w ∈ d.arrows) : d.arrowBetween.get? w.ends = some w := by
  refine Roster.get?_eq_some_of_mem ?_ ?_
  · rw [Roster.keys, entries_arrowBetween h, List.map_map]
    exact h
  · rw [entries_arrowBetween h]
    exact List.mem_map_of_mem hw

namespace Analysis

variable {first : Int} {entries : List Entry} {l : Layout}

/-- The neighbours on an itinerary through a loaded layout. -/
structure Course (ids : List String) : Prop where
  no_repeat : ∀ step ∈ Transition.steps ids, step.1 ≠ step.2
  tail : Routine.start.id ∉ ids.tail
  dropLast : Routine.exit.id ∉ ids.dropLast
  entered : ∀ id ∈ ids, id ≠ Routine.start.id → id ∈ ids.tail
  exited : ∀ id ∈ ids, id ≠ Routine.exit.id → id ∈ ids.dropLast
  departs : ids.dropLast.count Routine.start.id = 1

theorem isChain_visits (h : Layout.load first entries = .ok l) (samples : List Int) :
    (visits l samples).IsChain (· ≠ ·) := by
  rw [visits, List.isChain_map]
  have hchain := Itinerary.isChain_ofTrace l samples
  refine hchain.imp_of_mem_imp ?_
  intro r r' hr hr' hne hid
  exact hne (eq_of_id_eq_of_mem_ofTrace h hr hr' hid)

theorem course_visits (h : Layout.load first entries = .ok l) (samples : List Int) :
    Course (visits l samples) := by
  have hstart := start_id_notMem_interior h samples
  have hexit := exit_id_notMem_interior h samples
  have hends : Routine.start.id ≠ Routine.exit.id := by decide
  have hchain := isChain_visits h samples
  have hdropLast : (visits l samples).dropLast =
      Routine.start.id :: (Itinerary.interior l samples).map (·.id) := by
    rw [visits_eq, List.dropLast_concat]
  have htail : (visits l samples).tail =
      (Itinerary.interior l samples).map (·.id) ++ [Routine.exit.id] := by
    rw [visits_eq, List.cons_append, List.tail_cons]
  refine ⟨fun step => Transition.ne_of_mem_steps hchain, ?_, ?_, ?_, ?_, ?_⟩
  · rw [htail]
    simpa using ⟨by simpa using hstart, hends⟩
  · rw [hdropLast]
    simpa using ⟨hends.symm, by simpa using hexit⟩
  · intro id hid hne
    rw [visits_eq, List.cons_append] at hid
    rw [htail]
    exact (List.mem_cons.mp hid).resolve_left hne
  · intro id hid hne
    rw [visits_eq] at hid
    rw [hdropLast]
    exact (List.mem_append.mp hid).resolve_right (by simpa using hne)
  · rw [hdropLast, List.count_cons_self, List.count_eq_zero_of_not_mem hstart]

variable {name : String} {samples : List Int} {a : Analysis}

theorem map_ends_arrows (h : Layout.load first entries = .ok l) (ha : Parts name l samples a) :
    a.diagram.arrows.map Arrow.ends =
      (Transition.ofVisits (visits l samples)).values.flatten.map Transition.ends := by
  rw [map_ends_of_depicts (ordered_of_parts h ha).arrows, ha.transitions]

theorem mem_steps_iff_exists_arrow (h : Layout.load first entries = .ok l)
    (ha : Parts name l samples a) {step : String × String} :
    step ∈ Transition.steps (visits l samples) ↔ ∃ w ∈ a.diagram.arrows, w.ends = step := by
  rw [← Transition.mem_map_ends_ofVisits, ← map_ends_arrows h ha, List.mem_map]

theorem mem_nodes_iff_mem_visits (h : Layout.load first entries = .ok l)
    (ha : Parts name l samples a) {id : String} :
    id ∈ a.diagram.nodes.map (·.id) ↔ id ∈ visits l samples := by
  rw [(ordered_of_parts h ha).nodes, order, ha.itinerary, List.mem_eraseDups, visits]

theorem wellFormed_of_parts (h : Layout.load first entries = .ok l)
    (ha : Parts name l samples a) : a.diagram.WellFormed := by
  have hcourse := course_visits h samples
  have hordered := ordered_of_parts h ha
  have hnodes : ∀ id, id ∈ a.diagram.nodes.map (·.id) ↔ id ∈ visits l samples :=
    fun id => mem_nodes_iff_mem_visits h ha
  have hsteps : ∀ w ∈ a.diagram.arrows, w.ends ∈ Transition.steps (visits l samples) :=
    fun w hw => (mem_steps_iff_exists_arrow h ha).mpr ⟨w, hw, rfl⟩
  have hsources : ∀ w ∈ a.diagram.arrows, w.source ∈ (visits l samples).dropLast := by
    intro w hw
    rw [← Transition.map_fst_steps]
    exact List.mem_map_of_mem (hsteps w hw)
  have htargets : ∀ w ∈ a.diagram.arrows, w.target ∈ (visits l samples).tail := by
    intro w hw
    rw [← Transition.map_snd_steps]
    exact List.mem_map_of_mem (hsteps w hw)
  have hnodup : (a.diagram.arrows.map Arrow.ends).Nodup := by
    rw [map_ends_arrows h ha]
    exact Transition.nodup_map_ends_ofVisits _
  constructor
  · rw [hordered.nodes]
    exact hordered.nodup
  · intro w hw
    rw [hnodes, hnodes]
    exact ⟨List.mem_of_mem_dropLast (hsources w hw), List.mem_of_mem_tail (htargets w hw)⟩
  · exact hnodup
  · exact Diagram.entries_arrowBetween hnodup
  · intro w hw
    exact Diagram.get?_arrowBetween hnodup hw
  · intro w hw
    exact hcourse.no_repeat _ (hsteps w hw)
  · intro w hw
    exact ne_of_mem_of_not_mem (htargets w hw) hcourse.tail
  · intro w hw
    exact ne_of_mem_of_not_mem (hsources w hw) hcourse.dropLast
  · intro n hn hne
    have hmem := hcourse.entered n.id ((hnodes n.id).mp (List.mem_map_of_mem hn)) hne
    rw [← Transition.map_snd_steps] at hmem
    obtain ⟨step, hstep, heq⟩ := List.mem_map.mp hmem
    obtain ⟨w, hw, rfl⟩ := (mem_steps_iff_exists_arrow h ha).mp hstep
    exact ⟨w, hw, heq⟩
  · intro n hn hne
    have hmem := hcourse.exited n.id ((hnodes n.id).mp (List.mem_map_of_mem hn)) hne
    rw [← Transition.map_fst_steps] at hmem
    obtain ⟨step, hstep, heq⟩ := List.mem_map.mp hmem
    obtain ⟨w, hw, rfl⟩ := (mem_steps_iff_exists_arrow h ha).mp hstep
    exact ⟨w, hw, heq⟩

theorem departsOnce_of_parts (h : Layout.load first entries = .ok l)
    (ha : Parts name l samples a) : a.DepartsOnce := by
  have hcourse := course_visits h samples
  have hmem : Routine.start.id ∈ visits l samples := by
    rw [visits_eq]
    simp
  obtain ⟨target, hfollowers⟩ : ∃ target,
      Transition.followers (visits l samples) Routine.start.id = [target] := by
    rw [← List.length_eq_one_iff, Transition.length_followers]
    exact hcourse.departs
  obtain ⟨t, hleaving, hends, hcount, hsole⟩ := Transition.leaving_eq_singleton hfollowers
  have harrows : List.Forall₂ Arrow.Depicts [t] (a.diagram.arrowsFrom Routine.start.id) := by
    rw [← hleaving, ← Transition.filter_source_ofVisits hmem, ← ha.transitions]
    refine List.rel_filter ?_ (ordered_of_parts h ha).arrows
    intro t w hw
    simp [hw.source]
  cases hfrom : a.diagram.arrowsFrom Routine.start.id with
  | nil =>
      rw [hfrom] at harrows
      cases harrows
  | cons w ws =>
      rw [hfrom] at harrows
      obtain ⟨hw, hws⟩ := List.forall₂_cons.mp harrows
      cases hws
      refine ⟨t, w, ?_, hfrom, hw.source, hw.target, hcount, hsole, ?_⟩
      · rw [ha.transitions, Transition.get?_ofVisits, if_pos hmem, hleaving]
      · rw [hw.color, hsole]

/-- The diagram of an analysis through a loaded layout is well formed, and there is one for
every trace that is not too long for exact sums. -/
theorem wellFormed_ofSamples (h : Layout.load first entries = .ok l) (name : String)
    (samples : List Int) :
    (∀ a, ofSamples name l samples = .ok a → a.diagram.WellFormed ∧ a.DepartsOnce) ∧
      (samples.length ≤ 2 ^ 26 - 2 → ∃ a, ofSamples name l samples = .ok a) := by
  constructor
  · intro a ha
    have hparts := parts_of_ofSamples ha
    exact ⟨wellFormed_of_parts h hparts, departsOnce_of_parts h hparts⟩
  · exact exists_ofSamples name l

/-- Two routines that share an address and call each other. -/
theorem wellFormed_ofSamples_loop :
    ∃ l a, Layout.load 5 [⟨"a", 0, 1⟩, ⟨"b", 1, 3⟩] = .ok l ∧
      ofSamples "loop" l [0, 2, 1, 7, 4, 4, 0] = .ok a ∧ a.diagram.WellFormed ∧ a.DepartsOnce := by
  have hload : Layout.load 5 [⟨"a", 0, 1⟩, ⟨"b", 1, 3⟩] =
      .ok ⟨[⟨"5", "a", some 0, some 1⟩, ⟨"6", "b", some 1, some 4⟩]⟩ := rfl
  have hformed := wellFormed_ofSamples hload "loop" [0, 2, 1, 7, 4, 4, 0]
  obtain ⟨a, ha⟩ := hformed.2 (by decide)
  exact ⟨_, a, hload, ha, hformed.1 a ha⟩

end VisitGraph.Analysis
