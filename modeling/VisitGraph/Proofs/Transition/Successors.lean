import Mathlib.Data.List.Count
import VisitGraph.Proofs.Roster.Tally
import VisitGraph.Transition

/-! # Successors in an itinerary

The followers of all nodes together are the transitions of the itinerary: every pair of neighbours
is recorded once, at its first component. -/

namespace VisitGraph.Transition

/-- Every place of an itinerary but the last, with the one after it. -/
abbrev steps (ids : List String) : List (String × String) :=
  ids.zip ids.tail

/-! ## The followers of one node -/

@[simp] theorem followers_nil (source : String) : followers [] source = [] := rfl

@[simp] theorem followers_singleton (id source : String) : followers [id] source = [] := rfl

theorem followers_cons_cons (id next : String) (rest : List String) (source : String) :
    followers (id :: next :: rest) source =
      (if id = source then [next] else []) ++ followers (next :: rest) source := by
  by_cases h : id = source <;> simp [followers, h]

/-- What follows a node is recorded before and after any place apart. -/
theorem followers_append (past : List String) (current : String) (rest : List String)
    (source : String) :
    followers (past ++ current :: rest) source =
      followers (past ++ [current]) source ++ followers (current :: rest) source := by
  induction past with
  | nil => simp
  | cons id past ih =>
      cases past with
      | nil =>
          simp only [List.nil_append, List.cons_append]
          rw [followers_cons_cons, followers_cons_cons, followers_singleton, List.append_nil]
      | cons next past =>
          simp only [List.cons_append] at ih ⊢
          rw [followers_cons_cons, followers_cons_cons, ih, List.append_assoc]

theorem count_followers (ids : List String) (source target : String) :
    (followers ids source).count target = (steps ids).count (source, target) := by
  induction ids with
  | nil => rfl
  | cons id rest ih =>
      cases rest with
      | nil => rfl
      | cons next rest =>
          rw [followers_cons_cons, List.count_append, ih]
          simp only [steps, List.tail_cons, List.zip_cons_cons, List.count_cons]
          by_cases hs : id = source <;> by_cases ht : next = target <;> simp [hs, ht, Nat.add_comm]

/-- A node is followed once for each of its occurrences but the last place. -/
theorem length_followers (ids : List String) (source : String) :
    (followers ids source).length = ids.dropLast.count source := by
  induction ids with
  | nil => rfl
  | cons id rest ih =>
      cases rest with
      | nil => rfl
      | cons next rest =>
          rw [followers_cons_cons, List.length_append, ih, List.dropLast_cons_cons,
            List.count_cons]
          by_cases hs : id = source <;> simp [hs, Nat.add_comm]

theorem mem_followers {ids : List String} {source target : String} :
    target ∈ followers ids source ↔ (source, target) ∈ steps ids := by
  rw [← List.count_pos_iff, count_followers, List.count_pos_iff]

theorem followers_eq_nil_of_notMem {ids : List String} {source : String} (h : source ∉ ids) :
    followers ids source = [] := by
  rw [List.eq_nil_iff_forall_not_mem]
  intro target ht
  exact h (List.of_mem_zip (mem_followers.mp ht)).1

/-! ## The followers of all nodes -/

theorem keys_successors (ids : List String) : (successors ids).keys = ids.eraseDups := by
  simp [successors, Roster.keys, Function.comp_def]

theorem get?_successors (ids : List String) (id : String) :
    (successors ids).get? id = if id ∈ ids then some (followers ids id) else none := by
  rw [successors, Roster.get?_mk_map]
  simp

/-- The recorded transitions, read list by list, are those of the itinerary in another order. -/
theorem flatMap_followers_perm (ids : List String) :
    (ids.eraseDups.flatMap fun source => (followers ids source).map (source, ·)).Perm
      (steps ids) := by
  rw [List.perm_iff_count]
  rintro ⟨source, target⟩
  have hother : ∀ id, id ≠ source → id ∈ ids.eraseDups →
      ((followers ids id).map (id, ·)).count (source, target) = 0 := by
    intro id hid _
    rw [List.count_eq_zero]
    simp [hid]
  have hown : ((followers ids source).map (source, ·)).count (source, target) =
      (steps ids).count (source, target) := by
    rw [List.count_map_of_injective _ _ fun _ _ h => (Prod.mk.inj h).2, count_followers]
  rw [List.count_flatMap]
  change (ids.eraseDups.map fun id =>
    ((followers ids id).map (id, ·)).count (source, target)).sum = _
  rw [List.sum_map_eq_nsmul_single source _ hother, hown]
  by_cases hmem : source ∈ ids
  · rw [(nodup_eraseDups ids).count, if_pos (List.mem_eraseDups.mpr hmem), one_nsmul]
  · have hnone : (steps ids).count (source, target) = 0 := by
      rw [← count_followers, followers_eq_nil_of_notMem hmem, List.count_nil]
    rw [hnone, nsmul_zero]

/-! ## Successors in two passes -/

/-- Gives a node an empty list, unless it has one. -/
def enter (m : Roster String (List String)) (id : String) : Roster String (List String) :=
  m.alter id fun seen => seen.getD []

/-- Adds a follower to the list of a node. -/
def follow (m : Roster String (List String)) (step : String × String) :
    Roster String (List String) :=
  m.alter step.1 fun seen => seen.getD [] ++ [step.2]

theorem foldl_enter (ids : List String) :
    ids.foldl enter .empty = ⟨ids.eraseDups.map fun id => (id, [])⟩ := by
  induction ids using List.reverseRecOn with
  | nil => rfl
  | append_singleton ids id ih =>
      rw [List.foldl_concat, ih, enter, Roster.alter]
      by_cases h : id ∈ ids
      · rw [eraseDups_concat_of_mem h, Roster.alterEntries_map_of_mem (List.mem_eraseDups.mpr h)
          (nodup_eraseDups ids)]
        simp
      · rw [eraseDups_concat_of_notMem h, Roster.alterEntries_map_of_notMem (by simpa using h),
          List.map_append]
        rfl

theorem foldl_follow {ids : List String} (hnd : ids.Nodup) {past : List (String × String)}
    (hmem : ∀ step ∈ past, step.1 ∈ ids) :
    past.foldl follow ⟨ids.map fun id => (id, [])⟩ =
      ⟨ids.map fun id => (id, past.filterMap fun (current, next) =>
        if current = id then some next else none)⟩ := by
  induction past using List.reverseRecOn with
  | nil => rfl
  | append_singleton past step ih =>
      rw [List.foldl_concat, ih fun s hs => hmem s (List.mem_append_left _ hs), follow,
        Roster.alter, Roster.alterEntries_map_of_mem (hmem step (by simp)) hnd]
      congr 1
      refine List.map_congr_left fun id _ => ?_
      by_cases h : step.1 = id
      · simp [h]
      · simp [h, Ne.symm h]

/-- The successors can be built in two passes: the first enters the nodes, the second hands each
place of the itinerary the one after it. -/
theorem successors_eq_foldl (ids : List String) :
    successors ids = (steps ids).foldl follow (ids.foldl enter .empty) := by
  have hmem : ∀ step ∈ steps ids, step.1 ∈ ids.eraseDups := by
    intro step hstep
    rw [List.mem_eraseDups]
    exact (List.of_mem_zip hstep).1
  rw [foldl_enter, foldl_follow (nodup_eraseDups ids) hmem]
  rfl

end VisitGraph.Transition
