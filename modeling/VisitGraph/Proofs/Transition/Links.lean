import Mathlib.Data.List.Nodup
import VisitGraph.Proofs.Transition.Flow

/-! # The transitions between two nodes

Two nodes have one transition if the second ever follows the first, and none otherwise. -/

namespace VisitGraph.Transition

/-- The transitions that leave a node. -/
def leaving (ids : List String) (source : String) : List Transition :=
  emphasise (group source (followers ids source))

/-- The nodes that a transition joins. -/
def ends (t : Transition) : String × String :=
  (t.source, t.target)

theorem ofVisits_eq (ids : List String) :
    ofVisits ids = ⟨ids.eraseDups.map fun source => (source, leaving ids source)⟩ := by
  simp [ofVisits, successors, leaving, Function.comp_def]

theorem keys_ofVisits (ids : List String) : (ofVisits ids).keys = ids.eraseDups := by
  simp [ofVisits_eq, Roster.keys, Function.comp_def]

theorem values_ofVisits (ids : List String) :
    (ofVisits ids).values = ids.eraseDups.map (leaving ids) := by
  simp [ofVisits_eq, Roster.values, Function.comp_def]

theorem get?_ofVisits (ids : List String) (id : String) :
    (ofVisits ids).get? id = if id ∈ ids then some (leaving ids id) else none := by
  rw [ofVisits_eq, Roster.get?_mk_map]
  simp

theorem map_ends_leaving (ids : List String) (source : String) :
    (leaving ids source).map ends = (followers ids source).eraseDups.map (source, ·) := by
  have hends : ∀ ts : List Transition, ts.map ends = (ts.map tallied).map Prod.fst := by
    intro ts
    rw [List.map_map]
    rfl
  rw [hends, leaving, map_tallied_emphasise, map_tallied_group, List.map_map]
  rfl

theorem source_eq_of_mem_leaving {ids : List String} {source : String} {t : Transition}
    (h : t ∈ leaving ids source) : t.source = source := by
  have hends : t.ends ∈ (leaving ids source).map ends := List.mem_map_of_mem h
  rw [map_ends_leaving] at hends
  obtain ⟨target, -, heq⟩ := List.mem_map.mp hends
  exact (Prod.mk.inj heq).1.symm

/-- The transition is counted among the steps from its source, and has its share of them for a
probability. -/
structure Shares (ids : List String) (t : Transition) : Prop where
  count : t.count = (followers ids t.source).count t.target
  followed : t.target ∈ followers ids t.source
  probability : t.probability = .real (Numeric.Binary64.ofRatio false
    ((followers ids t.source).count t.target) (followers ids t.source).length)

theorem shares_of_mem_leaving {ids : List String} {source : String} {t : Transition}
    (h : t ∈ leaving ids source) : Shares ids t := by
  rw [leaving, emphasise, List.mem_map] at h
  obtain ⟨t', ht', rfl⟩ := h
  rw [group, Roster.entries_tally, List.map_map, List.mem_map] at ht'
  obtain ⟨target, htarget, rfl⟩ := ht'
  exact ⟨rfl, List.mem_eraseDups.mp htarget, rfl⟩

/-- How often the one node was left for the other, as their transition tells; not at all if they
have none. -/
def passes (m : Roster String (List Transition)) (source target : String) : Int :=
  (((m.get? source).getD []).find? (·.target = target)).elim 0 (·.count)

theorem passes_ofVisits (ids : List String) (source target : String) :
    passes (ofVisits ids) source target = (steps ids).count (source, target) := by
  have hleaving : ((ofVisits ids).get? source).getD [] = leaving ids source := by
    rw [get?_ofVisits]
    split
    · rfl
    · rename_i h
      rw [Option.getD_none, leaving, followers_eq_nil_of_notMem h]
      rfl
  rw [passes, hleaving, ← count_followers]
  cases hfind : (leaving ids source).find? (·.target = target) with
  | none =>
      have hfresh : target ∉ followers ids source := by
        intro hmem
        have hends : (source, target) ∈ (leaving ids source).map ends := by
          rw [map_ends_leaving]
          exact List.mem_map_of_mem (List.mem_eraseDups.mpr hmem)
        obtain ⟨t, ht, heq⟩ := List.mem_map.mp hends
        have htarget : t.target ≠ target := by
          simpa using List.find?_eq_none.mp hfind t ht
        exact htarget (Prod.mk.inj heq).2
      rw [List.count_eq_zero_of_not_mem hfresh]
      rfl
  | some t =>
      have ht := List.mem_of_find?_eq_some hfind
      have htarget : t.target = target := by
        simpa using List.find?_some hfind
      have hcount := (shares_of_mem_leaving ht).count
      rwa [source_eq_of_mem_leaving ht, htarget] at hcount

theorem map_ends_ofVisits (ids : List String) :
    (ofVisits ids).values.flatten.map ends =
      ids.eraseDups.flatMap fun source => (followers ids source).eraseDups.map (source, ·) := by
  rw [values_ofVisits, ← List.flatMap_def, List.map_flatMap]
  simp only [map_ends_leaving]

theorem mem_map_ends_ofVisits {ids : List String} {step : String × String} :
    step ∈ (ofVisits ids).values.flatten.map ends ↔ step ∈ steps ids := by
  obtain ⟨source, target⟩ := step
  simp only [map_ends_ofVisits, List.mem_flatMap, List.mem_map, List.mem_eraseDups,
    Prod.mk.injEq, mem_followers]
  constructor
  · rintro ⟨s, -, t, hstep, rfl, rfl⟩
    exact hstep
  · intro hstep
    exact ⟨source, (List.of_mem_zip hstep).1, target, hstep, rfl, rfl⟩

theorem nodup_map_ends_ofVisits (ids : List String) :
    ((ofVisits ids).values.flatten.map ends).Nodup := by
  rw [map_ends_ofVisits, List.nodup_flatMap]
  constructor
  · intro source _
    exact (nodup_eraseDups _).map fun _ _ h => (Prod.mk.inj h).2
  · refine (nodup_eraseDups ids).imp ?_
    intro source source' hne step hstep hstep'
    obtain ⟨target, -, rfl⟩ := List.mem_map.mp hstep
    obtain ⟨target', -, heq⟩ := List.mem_map.mp hstep'
    exact hne (Prod.mk.inj heq).1.symm

/-- The transitions of one source stand together. -/
theorem filter_source_ofVisits {ids : List String} {id : String} (h : id ∈ ids) :
    ((ofVisits ids).values.flatten.filter fun t => t.source = id) = leaving ids id := by
  have hone : ∀ source, (leaving ids source).filter (fun t => t.source = id) =
      if source = id then leaving ids id else [] := by
    intro source
    split
    · rename_i heq
      rw [← heq, List.filter_eq_self]
      intro t ht
      simpa using source_eq_of_mem_leaving ht
    · rename_i hne
      rw [List.filter_eq_nil_iff]
      intro t ht
      simpa [source_eq_of_mem_leaving ht] using hne
  have hall : ∀ sources : List String, sources.Nodup → id ∈ sources →
      (sources.flatMap fun source => if source = id then leaving ids id else []) =
        leaving ids id := by
    intro sources hnd hmem
    obtain ⟨before, after, rfl⟩ := List.append_of_mem hmem
    obtain ⟨-, hnd', hdisj⟩ := List.nodup_append.mp hnd
    have hbefore : ∀ source ∈ before, (if source = id then leaving ids id else []) = [] := by
      intro source hs
      exact if_neg (hdisj source hs id List.mem_cons_self)
    have hafter : ∀ source ∈ after, (if source = id then leaving ids id else []) = [] := by
      intro source hs
      exact if_neg (ne_of_mem_of_not_mem hs (List.nodup_cons.mp hnd').1)
    rw [List.flatMap_append, List.flatMap_cons, if_pos rfl, List.flatMap_eq_nil_iff.mpr hbefore,
      List.flatMap_eq_nil_iff.mpr hafter, List.append_nil, List.nil_append]
  rw [values_ofVisits, ← List.flatMap_def, List.filter_flatMap]
  simp only [hone]
  exact hall ids.eraseDups (nodup_eraseDups ids) (List.mem_eraseDups.mpr h)

/-- A node that is followed once is left by one transition, which is the only one it can take. -/
theorem leaving_eq_singleton {ids : List String} {source target : String}
    (h : followers ids source = [target]) :
    ∃ t, leaving ids source = [t] ∧
      t.ends = (source, target) ∧ t.count = 1 ∧ t.emphasis = .sole := by
  rw [leaving, h]
  exact ⟨_, rfl, rfl, rfl, rfl⟩

theorem isChain_iff_forall_steps {r : String → String → Prop} {ids : List String} :
    ids.IsChain r ↔ ∀ step ∈ steps ids, r step.1 step.2 := by
  induction ids with
  | nil => simp
  | cons id rest ih =>
      cases rest with
      | nil => simp [steps]
      | cons next rest =>
          have hsteps : steps (id :: next :: rest) = (id, next) :: steps (next :: rest) := rfl
          rw [List.isChain_cons_cons, ih, hsteps, List.forall_mem_cons]

/-- Neighbours in an itinerary without repeats are different nodes. -/
theorem ne_of_mem_steps {ids : List String} (h : ids.IsChain (· ≠ ·)) {step : String × String}
    (hstep : step ∈ steps ids) : step.1 ≠ step.2 :=
  isChain_iff_forall_steps.mp h step hstep

end VisitGraph.Transition
