import Mathlib.Algebra.Order.BigOperators.Group.List
import Mathlib.Algebra.Order.Group.Nat
import VisitGraph.Proofs.Transition.Successors
import VisitGraph.Routine

/-! # Walking through the successors

The lists of followers keep the order of the itinerary: whoever starts at the first key and always
takes the next unused follower of the place it is at walks the itinerary again, and uses up every
list. The invariant is that the walk has used as many followers of each node as the node occurs
among the places already left. -/

namespace VisitGraph.Transition

/-- The followers recorded for a node, none for a node that is not recorded. -/
def recorded (m : Roster String (List String)) (id : String) : List String :=
  (m.get? id).getD []

@[simp] theorem recorded_successors (ids : List String) (id : String) :
    recorded (successors ids) id = followers ids id := by
  rw [recorded, get?_successors]
  split
  · rfl
  · rename_i h
    rw [followers_eq_nil_of_notMem h, Option.getD_none]

/-- Where a walk is, and how many followers of each node it has used. -/
structure Walker where
  place : String
  used : String → ℕ

namespace Walker

/-- A walk that has used nothing yet. -/
def start (place : String) : Walker :=
  ⟨place, fun _ => 0⟩

/-- The follower to be used next: its node, and its index in the list of the node. -/
def mark (w : Walker) : String × ℕ :=
  (w.place, w.used w.place)

/-- Moves to the next unused follower, if the list is not used up. -/
def step (m : Roster String (List String)) (w : Walker) : Option Walker :=
  (recorded m w.place)[w.used w.place]?.map fun next =>
    ⟨next, Function.update w.used w.place (w.used w.place + 1)⟩

/-- The number of followers that are still to be used. -/
def unused (m : Roster String (List String)) (w : Walker) : ℕ :=
  (m.entries.map fun entry => entry.2.length - w.used entry.1).sum

theorem unused_lt_of_step {m : Roster String (List String)} {w w' : Walker}
    (h : step m w = some w') : unused m w' < unused m w := by
  obtain ⟨next, hnext, rfl⟩ := Option.map_eq_some_iff.mp h
  have hlt : w.used w.place < (recorded m w.place).length :=
    (List.getElem?_eq_some_iff.mp hnext).1
  cases hlist : m.get? w.place with
  | none => simp [recorded, hlist] at hlt
  | some list =>
      have hmem : (w.place, list) ∈ m.entries := by
        obtain ⟨before, after, hentries, -⟩ := List.lookup_eq_some_iff.mp hlist
        simp [hentries]
      apply List.sum_lt_sum
      · rintro ⟨id, list⟩ -
        by_cases hid : id = w.place
        · subst hid
          simp only [Function.update_self]
          omega
        · simp [hid]
      · refine ⟨_, hmem, ?_⟩
        simp only [recorded, hlist, Option.getD_some] at hlt
        simp only [Function.update_self]
        omega

/-- The walk from here to where no unused follower is left. -/
def walk (m : Roster String (List String)) (w : Walker) : List Walker :=
  w :: match h : step m w with
    | none => []
    | some w' =>
      have := unused_lt_of_step h
      walk m w'
termination_by unused m w

theorem walk_ne_nil (m : Roster String (List String)) (w : Walker) : walk m w ≠ [] := by
  rw [walk]
  exact List.cons_ne_nil _ _

theorem walk_of_step_eq_some {m : Roster String (List String)} {w w' : Walker}
    (h : step m w = some w') : walk m w = w :: walk m w' := by
  rw [walk]
  split
  · simp_all
  · simp_all

theorem walk_of_step_eq_none {m : Roster String (List String)} {w : Walker}
    (h : step m w = none) : walk m w = [w] := by
  rw [walk]
  split
  · rfl
  · simp_all

/-! ## Walking through an itinerary -/

/-- In the middle of the itinerary, with the followers used of all places before this one. -/
def within (past : List String) (current : String) : Walker :=
  ⟨current, past.count⟩

theorem recorded_within (past : List String) (current : String) (rest : List String) :
    (recorded (successors (past ++ current :: rest)) current)[past.count current]? =
      rest.head? := by
  rw [recorded_successors, followers_append]
  have hlength : (followers (past ++ [current]) current).length = past.count current := by
    rw [length_followers, List.dropLast_concat]
  rw [List.getElem?_append_right hlength.le, hlength, Nat.sub_self]
  cases rest with
  | nil => rfl
  | cons next rest => simp [followers_cons_cons]

/-- One step of the walk is one step of the itinerary. -/
theorem step_within (past : List String) (current next : String) (rest : List String) :
    step (successors (past ++ current :: next :: rest)) (within past current) =
      some (within (past ++ [current]) next) := by
  have hused : Function.update past.count current (past.count current + 1) =
      (past ++ [current]).count := by
    funext id
    by_cases h : id = current
    · simp [h]
    · simp [h, Ne.symm h]
  have hnext := recorded_within past current (next :: rest)
  simp only [step, within, hnext, hused, List.head?_cons, Option.map_some]

theorem step_within_last (past : List String) (current : String) :
    step (successors (past ++ [current])) (within past current) = none := by
  have hnext := recorded_within past current []
  simp only [step, within, hnext, List.head?_nil, Option.map_none]

/-- The followers that a walk uses: every place on it but the last takes one. -/
def marks (walkers : List Walker) : List (String × ℕ) :=
  walkers.dropLast.map mark

/-- From the middle of an itinerary the walk goes through the rest, and uses the followers that the
rest has left, each once. -/
theorem walk_within (past : List String) (current : String) (rest : List String) :
    let trail := walk (successors (past ++ current :: rest)) (within past current)
    trail.map place = current :: rest ∧ (marks trail).Nodup ∧
      ∀ id i, (id, i) ∈ marks trail ↔
        past.count id ≤ i ∧ i < (past ++ current :: rest).dropLast.count id := by
  induction rest generalizing past current with
  | nil =>
      rw [walk_of_step_eq_none (step_within_last past current)]
      refine ⟨rfl, List.nodup_nil, ?_⟩
      intro id i
      rw [List.dropLast_concat]
      simp [marks]
  | cons next rest ih =>
      obtain ⟨hplaces, hnodup, hmarks⟩ := ih (past ++ [current]) next
      rw [List.append_assoc, List.singleton_append] at hplaces hnodup hmarks
      have hstep := walk_of_step_eq_some (step_within past current next rest)
      have hcons : marks (walk (successors (past ++ current :: next :: rest))
            (within past current)) =
          (current, past.count current) ::
            marks (walk (successors (past ++ current :: next :: rest))
              (within (past ++ [current]) next)) := by
        rw [hstep, marks, List.dropLast_cons_of_ne_nil (walk_ne_nil _ _)]
        rfl
      have hleft : past.count current + 1 ≤
          (past ++ current :: next :: rest).dropLast.count current := by
        rw [List.dropLast_append_cons, List.dropLast_cons_cons, List.count_append,
          List.count_cons_self]
        omega
      refine ⟨?_, ?_, ?_⟩
      · rw [hstep, List.map_cons, hplaces]
        rfl
      · rw [hcons]
        refine List.nodup_cons.mpr ⟨?_, hnodup⟩
        rw [hmarks, List.count_append, List.count_singleton_self]
        omega
      · intro id i
        rw [hcons, List.mem_cons, hmarks, List.count_append, Prod.mk.injEq]
        by_cases hid : id = current
        · subst hid
          rw [List.count_singleton_self]
          simp only [true_and]
          omega
        · simp [hid, Ne.symm hid]

end Walker

open Walker in
/-- Reads an itinerary back from its successors, from the first key on. -/
def readBack (m : Roster String (List String)) : List String :=
  match m.keys.head? with
  | none => []
  | some first => (walk m (start first)).map place

theorem readBack_successors (ids : List String) : readBack (successors ids) = ids := by
  cases ids with
  | nil => rfl
  | cons id rest =>
      have hfirst : (successors (id :: rest)).keys.head? = some id := by
        rw [keys_successors, List.eraseDups_cons, List.head?_cons]
      rw [readBack, hfirst]
      exact (Walker.walk_within [] id rest).1

theorem successors_injective : Function.Injective successors := by
  intro ids ids' h
  rw [← readBack_successors ids, h, readBack_successors]

open Walker in
/-- Successors keep the whole order of an itinerary: the walk from their first key visits the same
nodes in the same order and uses every follower of every node once, so that only itineraries through
the same nodes in the same order have the same successors. -/
theorem walk_retraces :
    (∀ (r : Routine) (rs : List Routine),
      let ids := (r :: rs).map (·.id)
      let m := successors ids
      ∃ first, m.keys.head? = some first ∧
        let trail := walk m (start first)
        trail.map place = ids ∧ (marks trail).Nodup ∧
          ∀ id i, (id, i) ∈ marks trail ↔ i < (recorded m id).length) ∧
    ∀ visits visits' : List Routine,
      successors (visits.map (·.id)) = successors (visits'.map (·.id)) ↔
        visits.map (·.id) = visits'.map (·.id) := by
  refine ⟨?_, fun visits visits' => successors_injective.eq_iff⟩
  intro r rs ids m
  obtain ⟨hplaces, hnodup, hmarks⟩ := Walker.walk_within [] r.id (rs.map (·.id))
  have hids : ids = r.id :: rs.map (·.id) := rfl
  refine ⟨r.id, ?_, hplaces, hnodup, ?_⟩
  · rw [keys_successors, hids, List.eraseDups_cons, List.head?_cons]
  · intro id i
    rw [recorded_successors, length_followers]
    exact (hmarks id i).trans ⟨And.right, fun h => ⟨Nat.zero_le i, h⟩⟩

end VisitGraph.Transition
