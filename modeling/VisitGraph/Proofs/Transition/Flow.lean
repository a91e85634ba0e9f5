import Mathlib.Algebra.BigOperators.Ring.Finset
import VisitGraph.Proofs.Analysis.Parts
import VisitGraph.Proofs.Transition.Successors

/-! # Flow through the nodes

Calls and transitions are counted apart. They agree: a node is left once for each of its visits that
is not the last place of the itinerary, and entered once for each that is not the first. -/

namespace VisitGraph.Transition

/-- The ends of a transition and how often it was seen. -/
def tallied (t : Transition) : (String × String) × Int :=
  ((t.source, t.target), t.count)

/-- How often transitions were seen whose ends are as wanted. -/
def flow (m : Roster String (List Transition)) (wanted : String × String → Bool) : Int :=
  ((m.values.flatten.filter fun t => wanted (t.source, t.target)).map (·.count)).sum

/-- How often a node was left. -/
def outflow (m : Roster String (List Transition)) (id : String) : Int :=
  flow m (·.1 = id)

/-- How often a node was entered. -/
def inflow (m : Roster String (List Transition)) (id : String) : Int :=
  flow m (·.2 = id)

theorem map_tallied_emphasise (ts : List Transition) :
    (emphasise ts).map tallied = ts.map tallied := by
  simp [emphasise, tallied, Function.comp_def]

theorem map_tallied_group (source : String) (targets : List String) :
    (group source targets).map tallied =
      targets.eraseDups.map fun target => ((source, target), (targets.count target : Int)) := by
  simp [group, Roster.entries_tally, tallied, Function.comp_def]

theorem map_tallied_ofVisits (ids : List String) :
    (ofVisits ids).values.flatten.map tallied =
      ids.eraseDups.flatMap fun source => (followers ids source).eraseDups.map fun target =>
        ((source, target), ((followers ids source).count target : Int)) := by
  have hvalues : (ofVisits ids).values =
      ids.eraseDups.map fun source => emphasise (group source (followers ids source)) := by
    simp [ofVisits, successors, Roster.values, Function.comp_def]
  rw [hvalues, ← List.flatMap_def, List.map_flatMap]
  simp only [map_tallied_emphasise, map_tallied_group]

/-- Each distinct target counts for all its occurrences. -/
theorem sum_count_eraseDups_filter (targets : List String) (p : String → Bool) :
    ((targets.eraseDups.filter p).map fun target => (targets.count target : Int)).sum =
      targets.countP p := by
  have hcounts := List.sum_map_count_dedup_filter_eq_countP p targets
  rw [← (((eraseDups_perm_dedup targets).filter p).map _).sum_eq] at hcounts
  rw [← hcounts, Nat.cast_list_sum, List.map_map]
  rfl

/-- The flow between any ends is the number of steps between them. -/
theorem flow_ofVisits (ids : List String) (wanted : String × String → Bool) :
    flow (ofVisits ids) wanted = (steps ids).countP wanted := by
  have hflow : flow (ofVisits ids) wanted =
      ((((ofVisits ids).values.flatten.map tallied).filter (wanted ·.1)).map Prod.snd).sum := by
    rw [List.filter_map, List.map_map]
    rfl
  rw [hflow, map_tallied_ofVisits, List.filter_flatMap, List.map_flatMap, List.flatMap_def,
    List.sum_flatten, List.map_map, ← (flatMap_followers_perm ids).countP_eq, List.countP_flatMap,
    Nat.cast_list_sum, List.map_map]
  congr 1
  refine List.map_congr_left fun source _ => ?_
  have hgroup := sum_count_eraseDups_filter (followers ids source) fun target =>
    wanted (source, target)
  simpa [List.filter_map, Function.comp_def] using hgroup

/-! ## Leaving and entering a node -/

theorem map_fst_steps (ids : List String) : (steps ids).map Prod.fst = ids.dropLast := by
  induction ids with
  | nil => rfl
  | cons id rest ih =>
      cases rest with
      | nil => rfl
      | cons next rest => exact congrArg (List.cons id) ih

theorem map_snd_steps (ids : List String) : (steps ids).map Prod.snd = ids.tail := by
  rw [List.map_snd_zip]
  simp

theorem outflow_ofVisits (ids : List String) (id : String) :
    outflow (ofVisits ids) id = ids.dropLast.count id := by
  rw [outflow, flow_ofVisits, ← map_fst_steps, List.count, List.countP_map]
  congr 1

theorem inflow_ofVisits (ids : List String) (id : String) :
    inflow (ofVisits ids) id = ids.tail.count id := by
  rw [inflow, flow_ofVisits, ← map_snd_steps, List.count, List.countP_map]
  congr 1

theorem sum_counts_ofVisits (ids : List String) :
    ((ofVisits ids).values.flatten.map (·.count)).sum = (ids.length - 1 : ℕ) := by
  have hall := flow_ofVisits ids fun _ => true
  rw [List.countP_true, List.length_zip, List.length_tail,
    Nat.min_eq_right (Nat.sub_le _ _)] at hall
  rw [← hall, flow, List.filter_true]

/-! ## Flow from start to exit -/

/-- Everything flows from start to exit: any other node is entered and left once for each call. -/
structure Circulates (m : Roster String (List Transition)) (calls : String → Int) : Prop where
  through : ∀ id, id ≠ Routine.start.id → id ≠ Routine.exit.id →
    inflow m id = calls id ∧ outflow m id = calls id
  departure : outflow m Routine.start.id = 1 ∧ inflow m Routine.start.id = 0
  arrival : inflow m Routine.exit.id = 1 ∧ outflow m Routine.exit.id = 0

/-- The routines of a loaded layout have ids of their own, so that nothing leads back to start and
nothing on from exit. -/
theorem circulates_of_load {first : Int} {entries : List Entry} {l : Layout}
    (h : Layout.load first entries = .ok l) (samples : List Int) :
    Circulates (ofVisits (Analysis.visits l samples))
      fun id => (Analysis.visits l samples).count id := by
  have hstart := Analysis.start_id_notMem_interior h samples
  have hexit := Analysis.exit_id_notMem_interior h samples
  have hends : Routine.start.id ≠ Routine.exit.id := by decide
  have hleft : (Analysis.visits l samples).dropLast =
      Routine.start.id :: (Itinerary.interior l samples).map (·.id) := by
    rw [Analysis.visits_eq, List.dropLast_concat]
  have hentered : (Analysis.visits l samples).tail =
      (Itinerary.interior l samples).map (·.id) ++ [Routine.exit.id] := by
    rw [Analysis.visits_eq, List.cons_append, List.tail_cons]
  constructor
  · intro id hne hne'
    rw [inflow_ofVisits, outflow_ofVisits, hleft, hentered, Analysis.visits_eq]
    simp [Ne.symm hne, Ne.symm hne']
  · rw [outflow_ofVisits, inflow_ofVisits, hleft, hentered]
    simp [List.count_eq_zero_of_not_mem hstart, hends.symm]
  · rw [outflow_ofVisits, inflow_ofVisits, hleft, hentered]
    simp [List.count_eq_zero_of_not_mem hexit, hends]

/-- An analysis that is given out has these transitions, and counts the calls they are held to. -/
theorem circulates_of_ofSamples {first : Int} {entries : List Entry} {l : Layout}
    (h : Layout.load first entries = .ok l) {name : String} {samples : List Int} {a : Analysis}
    (ha : Analysis.ofSamples name l samples = .ok a) :
    Circulates a.transitions a.statistics.callsOf := by
  have hparts := Analysis.parts_of_ofSamples ha
  have hcalls : a.statistics.callsOf = fun id => ((Analysis.visits l samples).count id : Int) := by
    funext id
    rw [Statistics.callsOf_of_ofVisits hparts.statistics]
  rw [hparts.transitions, hcalls]
  exact circulates_of_load h samples

/-! ## Calls and flow -/

theorem outflow_eq_count_sub (r : Routine) (rs : List Routine) (id : String) :
    outflow (ofVisits ((r :: rs).map (·.id))) id = ((r :: rs).map (·.id)).count id -
      if ((r :: rs).getLast (List.cons_ne_nil r rs)).id = id then 1 else 0 := by
  have hids : (r :: rs).map (·.id) = (r :: rs).dropLast.map (·.id) ++
      [((r :: rs).getLast (List.cons_ne_nil r rs)).id] := by
    rw [← List.map_singleton, ← List.map_append, List.dropLast_append_getLast]
  rw [outflow_ofVisits, hids, List.dropLast_concat, List.count_append, List.count_singleton]
  by_cases h : ((r :: rs).getLast (List.cons_ne_nil r rs)).id = id <;> simp [h]

theorem inflow_eq_count_sub (r : Routine) (rs : List Routine) (id : String) :
    inflow (ofVisits ((r :: rs).map (·.id))) id =
      ((r :: rs).map (·.id)).count id - if r.id = id then 1 else 0 := by
  rw [inflow_ofVisits, List.map_cons, List.tail_cons, List.count_cons]
  by_cases h : r.id = id <;> simp [h]

/-- Calls and transitions are counted apart and agree: of every node, the transitions that leave it
add up to its calls but for the last place, and those that enter it to its calls but for the first.
In an analysis through a loaded layout everything flows from start to exit. -/
theorem flow_conserved :
    (∀ (r : Routine) (rs : List Routine),
      let ids := (r :: rs).map (·.id)
      let calls (id : String) : Int := (((Roster.tally ids).get? id).getD 0 : ℕ)
      (∀ id, outflow (ofVisits ids) id =
        calls id - if ((r :: rs).getLast (List.cons_ne_nil r rs)).id = id then 1 else 0) ∧
      (∀ id, inflow (ofVisits ids) id = calls id - if r.id = id then 1 else 0) ∧
      (Roster.tally ids).values.sum = (r :: rs).length ∧
      ((ofVisits ids).values.flatten.map (·.count)).sum = (r :: rs).length - 1) ∧
    ∀ (first : Int) (entries : List Entry) (l : Layout) (samples : List Int),
      Layout.load first entries = .ok l →
        Circulates (ofVisits (Analysis.visits l samples))
          (fun id => ((Roster.tally (Analysis.visits l samples)).get? id).getD 0) ∧
        ∀ name a, Analysis.ofSamples name l samples = .ok a →
          Circulates a.transitions a.statistics.callsOf := by
  constructor
  · intro r rs ids calls
    have hcalls : ∀ id, calls id = ids.count id := by
      intro id
      rw [← Roster.getD_get?_tally]
    refine ⟨?_, ?_, ?_, ?_⟩
    · intro id
      rw [hcalls]
      exact outflow_eq_count_sub r rs id
    · intro id
      rw [hcalls]
      exact inflow_eq_count_sub r rs id
    · rw [Roster.sum_values_tally]
      simp [ids]
    · rw [sum_counts_ofVisits]
      simp [ids]
  · intro first entries l samples hload
    simp only [Roster.getD_get?_tally]
    exact ⟨circulates_of_load hload samples, fun _ _ ha => circulates_of_ofSamples hload ha⟩

/-- A routine that is come back to through another one. -/
theorem flow_conserved_return :
    ∃ l a, Layout.load 1 [⟨"main", 0, 15⟩, ⟨"step", 16, 15⟩] = .ok l ∧
      Analysis.ofSamples "return" l [3, 20, 40, 4] = .ok a ∧
      Circulates a.transitions a.statistics.callsOf := by
  have hload : Layout.load 1 [⟨"main", 0, 15⟩, ⟨"step", 16, 15⟩] =
      .ok ⟨[⟨"1", "main", some 0, some 15⟩, ⟨"2", "step", some 16, some 31⟩]⟩ := rfl
  have hsome : (Analysis.ofSamples "return"
      ⟨[⟨"1", "main", some 0, some 15⟩, ⟨"2", "step", some 16, some 31⟩]⟩
      [3, 20, 40, 4]).toOption.isSome = true := by
    rw [Analysis.ofSamples, Itinerary.ofTrace_eq]
    decide +kernel
  cases ha : Analysis.ofSamples "return"
      ⟨[⟨"1", "main", some 0, some 15⟩, ⟨"2", "step", some 16, some 31⟩]⟩ [3, 20, 40, 4] with
  | error fault => simp [ha, Except.toOption] at hsome
  | ok a => exact ⟨_, a, hload, ha, (flow_conserved.2 _ _ _ _ hload).2 _ a ha⟩

end VisitGraph.Transition
