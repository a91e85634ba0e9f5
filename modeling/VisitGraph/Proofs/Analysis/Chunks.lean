import VisitGraph.Proofs.Analysis.Runs

/-! # Traces in chunks

What a trace visits is what its two chunks visit, one after the other, but that a routine at the end
of the one and at the beginning of the other is visited once. Calls and transitions add up
accordingly. -/

namespace VisitGraph.Analysis

open Itinerary

variable {first : Int} {entries : List Entry} {l : Layout}

theorem interior_append_of_meetIn {xs ys : List Int} {f : Routine}
    (h : MeetIn (Itinerary.interior l xs) (Itinerary.interior l ys) f) :
    Itinerary.interior l (xs ++ ys) =
      Itinerary.interior l xs ++ (Itinerary.interior l ys).tail := by
  have hhits : MeetIn (l.hits xs) (l.hits ys) f := by
    simpa only [MeetIn, Itinerary.interior, getLast?_collapse, head?_collapse] using h
  rw [Itinerary.interior, Layout.hits_append, collapse_append_of_meetIn hhits]
  rfl

theorem interior_append_of_not_meetIn {xs ys : List Int}
    (h : ∀ f, ¬ MeetIn (Itinerary.interior l xs) (Itinerary.interior l ys) f) :
    Itinerary.interior l (xs ++ ys) = Itinerary.interior l xs ++ Itinerary.interior l ys := by
  have hhits : ∀ f, ¬ MeetIn (l.hits xs) (l.hits ys) f := by
    simpa only [MeetIn, Itinerary.interior, getLast?_collapse, head?_collapse] using h
  rw [Itinerary.interior, Layout.hits_append, collapse_append_of_not_meetIn hhits]
  rfl

/-- Counts of calls and transitions of a trace from those of its two chunks, given what lies between
start and exit on the itinerary of the one chunk and on that of the other. -/
structure AddsUp (l : Layout) (before after : List Routine) (calls₁ calls₂ calls : String → Int)
    (m₁ m₂ m : Roster String (List Transition)) : Prop where
  calls : ∀ f ∈ l.routines,
    calls f.id = calls₁ f.id + calls₂ f.id - if MeetIn before after f then 1 else 0
  passes : ∀ f ∈ l.routines, ∀ g ∈ l.routines, f ≠ g →
    Transition.passes m f.id g.id =
      Transition.passes m₁ f.id g.id + Transition.passes m₂ f.id g.id +
        if before.getLast? = some f ∧ after.head? = some g then 1 else 0

theorem addsUp_of_load (h : Layout.load first entries = .ok l) (xs ys : List Int) :
    AddsUp l (Itinerary.interior l xs) (Itinerary.interior l ys)
      (fun id => (visits l xs).count id) (fun id => (visits l ys).count id)
      (fun id => (visits l (xs ++ ys)).count id) (Transition.ofVisits (visits l xs))
      (Transition.ofVisits (visits l ys)) (Transition.ofVisits (visits l (xs ++ ys))) := by
  constructor
  · intro f hf
    have hadd := count_collapse_append (l.hits xs) (l.hits ys) f
    rw [← Layout.hits_append] at hadd
    simp only [count_visits h _ hf, MeetIn, Itinerary.interior, getLast?_collapse, head?_collapse]
    split at hadd
    · rename_i hmeet
      rw [if_pos hmeet]
      omega
    · rename_i hmeet
      rw [if_neg hmeet]
      omega
  · intro f hf g hg hne
    have hadd := count_neighbours_collapse_append (l.hits xs) (l.hits ys) (p := (f, g)) hne
    rw [← Layout.hits_append] at hadd
    simp only [Transition.passes_ofVisits, count_steps_visits h _ hf hg, Itinerary.interior, hadd,
      getLast?_collapse, head?_collapse]
    push_cast
    rfl

/-- The interior of the itinerary of a trace is that of its chunks one after the other, with the
routine in which they meet, if there is one, taken once. The calls of a routine add up, less one for
that routine; the transitions between two different routines add up, and one more if the trace
passes from the one to the other between the chunks. The same holds of what analyses tell. -/
theorem chunks_addUp (h : Layout.load first entries = .ok l) (xs ys : List Int) :
    let inner (samples : List Int) := (ofTrace l samples).tail.dropLast
    (∀ f, (inner xs).getLast? = some f ∧ (inner ys).head? = some f →
      inner (xs ++ ys) = inner xs ++ (inner ys).tail) ∧
    ((∀ f, ¬ ((inner xs).getLast? = some f ∧ (inner ys).head? = some f)) →
      inner (xs ++ ys) = inner xs ++ inner ys) ∧
    AddsUp l (inner xs) (inner ys)
      (fun id => ((Roster.tally (visits l xs)).get? id).getD 0)
      (fun id => ((Roster.tally (visits l ys)).get? id).getD 0)
      (fun id => ((Roster.tally (visits l (xs ++ ys))).get? id).getD 0)
      (Transition.ofVisits (visits l xs)) (Transition.ofVisits (visits l ys))
      (Transition.ofVisits (visits l (xs ++ ys))) ∧
    ∀ name a b c, ofSamples name l xs = .ok a → ofSamples name l ys = .ok b →
      ofSamples name l (xs ++ ys) = .ok c →
        AddsUp l (inner xs) (inner ys) a.statistics.callsOf b.statistics.callsOf
          c.statistics.callsOf a.transitions b.transitions c.transitions := by
  have hadds := addsUp_of_load h xs ys
  simp only [tail_dropLast_ofTrace, Roster.getD_get?_tally]
  refine ⟨fun f => interior_append_of_meetIn, interior_append_of_not_meetIn, hadds, ?_⟩
  intro name a b c ha hb hc
  have hcalls : ∀ {samples : List Int} {a : Analysis}, ofSamples name l samples = .ok a →
      a.statistics.callsOf = fun id => ((visits l samples).count id : Int) := fun ha =>
    funext fun id => Statistics.callsOf_of_ofVisits (parts_of_ofSamples ha).statistics id
  rw [hcalls ha, hcalls hb, hcalls hc, (parts_of_ofSamples ha).transitions,
    (parts_of_ofSamples hb).transitions, (parts_of_ofSamples hc).transitions]
  exact hadds

/-- Chunks that meet in a routine that both visit twice. -/
theorem chunks_addUp_meeting :
    ∃ l a b c, Layout.load 1 [⟨"f", 0, 15⟩, ⟨"g", 16, 15⟩] = .ok l ∧
      ofSamples "chunks" l [3, 20, 4, 99] = .ok a ∧ ofSamples "chunks" l [5, 21, 6] = .ok b ∧
      ofSamples "chunks" l [3, 20, 4, 99, 5, 21, 6] = .ok c ∧
      c.statistics.callsOf "1" = a.statistics.callsOf "1" + b.statistics.callsOf "1" - 1 ∧
      Transition.passes c.transitions "1" "2" =
        Transition.passes a.transitions "1" "2" + Transition.passes b.transitions "1" "2" := by
  have hload : Layout.load 1 [⟨"f", 0, 15⟩, ⟨"g", 16, 15⟩] =
      .ok ⟨[⟨"1", "f", some 0, some 15⟩, ⟨"2", "g", some 16, some 31⟩]⟩ := rfl
  have hanalysed : ∀ samples : List Int, samples.length ≤ 2 ^ 26 - 2 → ∃ a, ofSamples "chunks"
      ⟨[⟨"1", "f", some 0, some 15⟩, ⟨"2", "g", some 16, some 31⟩]⟩ samples = .ok a :=
    fun _ => exists_ofSamples "chunks" _
  obtain ⟨a, ha⟩ := hanalysed [3, 20, 4, 99] (by decide)
  obtain ⟨b, hb⟩ := hanalysed [5, 21, 6] (by decide)
  obtain ⟨c, hc⟩ := hanalysed [3, 20, 4, 99, 5, 21, 6] (by decide)
  have hadds := (chunks_addUp hload [3, 20, 4, 99] [5, 21, 6]).2.2.2 "chunks" a b c ha hb hc
  simp only [tail_dropLast_ofTrace] at hadds
  have hcalls := hadds.calls ⟨"1", "f", some 0, some 15⟩ (by decide)
  have hpasses := hadds.passes ⟨"1", "f", some 0, some 15⟩ (by decide)
    ⟨"2", "g", some 16, some 31⟩ (by decide) (by decide)
  rw [if_pos (by decide)] at hcalls
  rw [if_neg (by decide), Int.add_zero] at hpasses
  exact ⟨_, a, b, c, hload, ha, hb, hc, hcalls, hpasses⟩

end VisitGraph.Analysis
