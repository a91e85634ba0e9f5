import Mathlib.Logic.Equiv.Basic
import VisitGraph.Proofs.Analysis.Runs

/-! # Traces from the other end

A trace that is read backwards visits the same routines in the opposite order. Start and exit keep
their places, so for the transitions they exchange their roles. -/

namespace VisitGraph

/-! ## Collapsing from the other end -/

section

variable {α : Type} [DecidableEq α]

/-- Which element of a run is kept does not matter, for they are equal. -/
theorem collapse_reverse (xs : List α) : collapse xs.reverse = (collapse xs).reverse := by
  induction xs with
  | nil => rfl
  | cons x xs ih =>
      rw [List.reverse_cons, collapse_concat, List.getLast?_reverse, collapse_cons, ih]
      split
      · rfl
      · rw [List.reverse_cons]

theorem count_neighbours_reverse (xs : List α) (p : α × α) :
    (xs.reverse.zip xs.reverse.tail).count p = (xs.zip xs.tail).count p.swap := by
  induction xs with
  | nil => rfl
  | cons x xs ih =>
      have hcons := count_neighbours_append [x] xs p.swap
      rw [List.singleton_append] at hcons
      rw [List.reverse_cons, count_neighbours_append, ih, hcons]
      simp [and_comm]

end

theorem Itinerary.interior_reverse (l : Layout) (samples : List Int) :
    interior l samples.reverse = (interior l samples).reverse := by
  rw [interior, interior, Layout.hits, List.filterMap_reverse, collapse_reverse]
  rfl

namespace Analysis

open Itinerary

variable {first : Int} {entries : List Entry} {l : Layout}

/-! ## Visits and steps -/

/-- Each end of an itinerary stands for the other one. -/
abbrev exchange : Equiv.Perm String :=
  Equiv.swap Routine.start.id Routine.exit.id

theorem exchange_id (h : Layout.load first entries = .ok l) {f : Routine} (hf : f ∈ l.routines) :
    exchange f.id = f.id :=
  Equiv.swap_apply_of_ne_of_ne (Layout.id_ne_start_of_load h hf) (Layout.id_ne_exit_of_load h hf)

theorem visits_reverse (h : Layout.load first entries = .ok l) (samples : List Int) :
    visits l samples.reverse = (visits l samples).reverse.map exchange := by
  have hinterior : ((Itinerary.interior l samples).reverse.map (·.id)).map exchange =
      (Itinerary.interior l samples).reverse.map (·.id) := by
    rw [List.map_map]
    apply List.map_congr_left
    intro r hr
    exact exchange_id h (mem_routines_of_mem_interior (List.mem_reverse.mp hr))
  rw [visits_eq, visits_eq, interior_reverse, List.reverse_append, List.reverse_cons, ← hinterior]
  simp

theorem count_visits_reverse (l : Layout) (samples : List Int) (id : String) :
    (visits l samples.reverse).count id = (visits l samples).count id := by
  rw [visits_eq, visits_eq, interior_reverse]
  simp [List.count_cons, List.map_reverse]

theorem count_steps_visits_reverse (h : Layout.load first entries = .ok l) (samples : List Int)
    (source target : String) :
    (Transition.steps (visits l samples.reverse)).count (exchange source, exchange target) =
      (Transition.steps (visits l samples)).count (target, source) := by
  have hinj : Function.Injective (Prod.map exchange exchange) :=
    exchange.injective.prodMap exchange.injective
  rw [visits_reverse h, Transition.steps, ← List.map_tail, List.zip_map]
  exact (List.count_map_of_injective _ _ hinj (source, target)).trans
    (count_neighbours_reverse (visits l samples) (source, target))

/-! ## Calls and transitions -/

/-- Calls and transitions of a trace and of the same trace read backwards: every node is called as
often, and every transition is seen as often the other way round, with start for exit. -/
structure Reversed (l : Layout) (calls calls' : String → Int)
    (m m' : Roster String (List Transition)) : Prop where
  calls : ∀ id, calls' id = calls id
  between : ∀ f ∈ l.routines, ∀ g ∈ l.routines,
    Transition.passes m' g.id f.id = Transition.passes m f.id g.id
  departure : ∀ f ∈ l.routines, Transition.passes m' Routine.start.id f.id =
    Transition.passes m f.id Routine.exit.id
  arrival : ∀ f ∈ l.routines, Transition.passes m' f.id Routine.exit.id =
    Transition.passes m Routine.start.id f.id

theorem reversed_of_load (h : Layout.load first entries = .ok l) (samples : List Int) :
    Reversed l (fun id => (visits l samples).count id)
      (fun id => (visits l samples.reverse).count id) (Transition.ofVisits (visits l samples))
      (Transition.ofVisits (visits l samples.reverse)) := by
  have hpasses : ∀ source target,
      Transition.passes (Transition.ofVisits (visits l samples.reverse)) (exchange source)
        (exchange target) =
      Transition.passes (Transition.ofVisits (visits l samples)) target source := by
    intro source target
    rw [Transition.passes_ofVisits, Transition.passes_ofVisits, count_steps_visits_reverse h]
  constructor
  · intro id
    rw [count_visits_reverse]
  · intro f hf g hg
    have hstep := hpasses g.id f.id
    rwa [exchange_id h hf, exchange_id h hg] at hstep
  · intro f hf
    have hstep := hpasses Routine.exit.id f.id
    rwa [exchange_id h hf, Equiv.swap_apply_right] at hstep
  · intro f hf
    have hstep := hpasses f.id Routine.start.id
    rwa [exchange_id h hf, Equiv.swap_apply_left] at hstep

/-- The itinerary of a trace that is read backwards has the same interior the other way round. Every
node is called as often, the transitions between two routines are those in the opposite direction,
and start leads where exit was reached from. The same holds of what analyses tell. -/
theorem ofSamples_reverse (h : Layout.load first entries = .ok l) (samples : List Int) :
    ofTrace l samples.reverse =
      .start :: (ofTrace l samples).tail.dropLast.reverse ++ [.exit] ∧
    Reversed l (fun id => ((Roster.tally (visits l samples)).get? id).getD 0)
      (fun id => ((Roster.tally (visits l samples.reverse)).get? id).getD 0)
      (Transition.ofVisits (visits l samples))
      (Transition.ofVisits (visits l samples.reverse)) ∧
    (∀ name a b, ofSamples name l samples = .ok a → ofSamples name l samples.reverse = .ok b →
      Reversed l a.statistics.callsOf b.statistics.callsOf a.transitions b.transitions) ∧
    (samples.length ≤ 2 ^ 26 - 2 → ∀ name, ∃ a b, ofSamples name l samples = .ok a ∧
      ofSamples name l samples.reverse = .ok b) := by
  have hreversed := reversed_of_load h samples
  simp only [Roster.getD_get?_tally]
  refine ⟨?_, hreversed, ?_, ?_⟩
  · rw [ofTrace_eq, tail_dropLast_ofTrace, interior_reverse]
  · intro name a b ha hb
    have hparts := parts_of_ofSamples ha
    have hparts' := parts_of_ofSamples hb
    rw [hparts.callsOf_eq, hparts'.callsOf_eq, hparts.transitions, hparts'.transitions]
    exact hreversed
  · intro hlength name
    have hlength' : samples.reverse.length ≤ 2 ^ 26 - 2 := by simpa using hlength
    obtain ⟨a, ha⟩ := exists_ofSamples name l hlength
    obtain ⟨b, hb⟩ := exists_ofSamples name l hlength'
    exact ⟨a, b, ha, hb⟩

/-- A trace that ends far from where it began. -/
theorem ofSamples_reverse_detour :
    ∃ l a b, Layout.load 1 [⟨"f", 0, 15⟩, ⟨"g", 16, 15⟩, ⟨"h", 32, 15⟩] = .ok l ∧
      ofSamples "detour" l [3, 20, 99, 4, 40] = .ok a ∧
      ofSamples "detour" l [40, 4, 99, 20, 3] = .ok b ∧
      b.statistics.callsOf "1" = a.statistics.callsOf "1" ∧
      Transition.passes b.transitions "3" "1" = Transition.passes a.transitions "1" "3" ∧
      Transition.passes b.transitions "Start" "3" = Transition.passes a.transitions "3" "Exit" := by
  have hload : Layout.load 1 [⟨"f", 0, 15⟩, ⟨"g", 16, 15⟩, ⟨"h", 32, 15⟩] =
      .ok ⟨[⟨"1", "f", some 0, some 15⟩, ⟨"2", "g", some 16, some 31⟩,
        ⟨"3", "h", some 32, some 47⟩]⟩ := rfl
  obtain ⟨-, -, hreversed, hsome⟩ := ofSamples_reverse hload [3, 20, 99, 4, 40]
  obtain ⟨a, b, ha, hb⟩ := hsome (by decide) "detour"
  have hab := hreversed "detour" a b ha hb
  refine ⟨_, a, b, hload, ha, hb, hab.calls "1", ?_, ?_⟩
  · exact hab.between ⟨"1", "f", some 0, some 15⟩ (by decide) ⟨"3", "h", some 32, some 47⟩
      (by decide)
  · exact hab.departure ⟨"3", "h", some 32, some 47⟩ (by decide)

end Analysis

end VisitGraph
