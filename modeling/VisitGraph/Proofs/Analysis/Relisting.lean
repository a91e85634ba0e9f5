import VisitGraph.Proofs.Analysis.Noninterference
import VisitGraph.Proofs.Layout.Apart

/-! # Functions listed in another order

Ids are given out by position, so another order of the functions changes the id of every one. If the
functions lie apart, that is all it changes: a trace goes through the same functions, and what is
computed from it is the same for renamed nodes. -/

namespace VisitGraph

/-- The same function in another layout: all but the id is equal. -/
structure Routine.SamePlace (r r' : Routine) : Prop where
  name : r'.name = r.name
  first : r'.first? = r.first?
  last : r'.last? = r.last?

variable {ρ : String → String} {l l' : Layout}

namespace Itinerary

theorem ofTrace_of_renumbers (h : l.Renumbers ρ l') (hapart : l.Apart)
    (hρ : Function.Injective ρ) (samples : List Int) :
    ofTrace l' samples = (ofTrace l samples).map (Routine.rename ρ) := by
  have hstart : Routine.start.rename ρ = .start := by
    rw [Routine.rename, h.start]
  have hexit : Routine.exit.rename ρ = .exit := by
    rw [Routine.rename, h.exit]
  rw [ofTrace_eq_ofHits, ofTrace_eq_ofHits, h.hits_eq hapart, ofHits, ofHits,
    ← collapse_map (Routine.rename_injective hρ), List.map_append, List.map_cons,
    List.map_singleton, hstart, hexit]

end Itinerary

namespace Analysis

/-- A trace takes the same course through both layouts: at each place of the itineraries stands the
same function, and its id is the renamed one. The calls and the transitions are those of the renamed
nodes, in the same order and with the same counts. -/
structure SameCourse (ρ : String → String) (l l' : Layout) (samples : List Int) : Prop where
  places : List.Forall₂ Routine.SamePlace (Itinerary.ofTrace l samples)
    (Itinerary.ofTrace l' samples)
  ids : visits l' samples = (visits l samples).map ρ
  calls : Roster.tally (visits l' samples) = (Roster.tally (visits l samples)).rename ρ
  transitions : Transition.ofVisits (visits l' samples) =
    ((Transition.ofVisits (visits l samples)).map (List.map (Transition.rename ρ))).rename ρ

theorem visits_of_renumbers (h : l.Renumbers ρ l') (hapart : l.Apart) (hρ : Function.Injective ρ)
    (samples : List Int) : visits l' samples = (visits l samples).map ρ := by
  rw [visits, visits, Itinerary.ofTrace_of_renumbers h hapart hρ, List.map_map, List.map_map]
  rfl

theorem sameCourse_of_renumbers (h : l.Renumbers ρ l') (hapart : l.Apart)
    (hρ : Function.Injective ρ) (samples : List Int) : SameCourse ρ l l' samples := by
  have hvisits := visits_of_renumbers h hapart hρ samples
  refine ⟨?_, hvisits, ?_, ?_⟩
  · rw [Itinerary.ofTrace_of_renumbers h hapart hρ, List.forall₂_map_right_iff, List.forall₂_same]
    exact fun r _ => ⟨rfl, rfl, rfl⟩
  · rw [hvisits, Roster.tally_map hρ]
  · rw [hvisits, Transition.ofVisits_map hρ]

theorem ofSamples_eq_error_of_visits (hρ : Function.Injective ρ) {samples samples' : List Int}
    (hvisits : visits l' samples' = (visits l samples).map ρ) (name : String) (fault : Fault) :
    ofSamples name l samples = .error fault ↔ ofSamples name l' samples' = .error fault := by
  rw [ofSamples_eq_error, ofSamples_eq_error, hvisits, Statistics.ofVisits_map hρ]
  cases Statistics.ofVisits (visits l samples) <;> simp [Except.map]

theorem nodup_of_apart {entries : List Entry} (hsigns : ∀ e ∈ entries, 0 ≤ e.start ∧ 0 ≤ e.length)
    (hapart : entries.Pairwise fun e e' => Disjoint e.reach e'.reach) : entries.Nodup := by
  refine hapart.imp_of_mem fun {e e'} he _ hdisjoint heq => ?_
  have hlength := (hsigns e he).2
  have hstart : e.start ∈ e.reach := ⟨le_rfl, by rw [Entry.stop]; omega⟩
  exact Set.disjoint_left.mp hdisjoint hstart (heq ▸ hstart)

/-- Functions that lie apart can be listed in any order: the ids are renamed, a trace takes the same
course under the new ids, and it is analysed alike or fails alike. -/
theorem ofSamples_relisted {entries entries' : List Entry}
    (hsigns : ∀ e ∈ entries, 0 ≤ e.start ∧ 0 ≤ e.length)
    (hapart : entries.Pairwise fun e e' => Disjoint e.reach e'.reach)
    (hperm : entries.Perm entries') (first first' : Int) (name : String) (samples : List Int) :
    ∃ l l', Layout.load first entries = .ok l ∧ Layout.load first' entries' = .ok l' ∧
      ∃ ρ : Equiv.Perm String, l.Renumbers ρ l' ∧ SameCourse ρ l l' samples ∧
        (∀ fault, ofSamples name l samples = .error fault ↔
          ofSamples name l' samples = .error fault) ∧
        ∀ a a', ofSamples name l samples = .ok a → ofSamples name l' samples = .ok a' →
          Mirrors ρ a a' := by
  have hsigns' : ∀ e ∈ entries', 0 ≤ e.start ∧ 0 ≤ e.length := fun e he =>
    hsigns e (hperm.mem_iff.mpr he)
  obtain ⟨l, h⟩ := Layout.exists_load hsigns first
  obtain ⟨l', h'⟩ := Layout.exists_load hsigns' first'
  obtain ⟨ρ, hρ⟩ := Layout.exists_renumbers h h' (nodup_of_apart hsigns hapart) hperm
  have hcourse := sameCourse_of_renumbers hρ (Layout.apart_of_load h hapart) ρ.injective samples
  refine ⟨l, l', h, h', ρ, hρ, hcourse, ?_, fun a a' ha ha' => ?_⟩
  · exact ofSamples_eq_error_of_visits ρ.injective hcourse.ids name
  · exact mirrors_of_parts h h' ρ.injective hcourse.ids (parts_of_ofSamples ha)
      (parts_of_ofSamples ha')

/-- Three functions, one of them a single address, listed in another order and counted from another
number. -/
theorem ofSamples_relisted_rotated :
    let entries : List Entry := [⟨"f", 0, 15⟩, ⟨"mark", 16, 0⟩, ⟨"g", 17, 3⟩]
    let entries' : List Entry := [⟨"g", 17, 3⟩, ⟨"f", 0, 15⟩, ⟨"mark", 16, 0⟩]
    (∀ e ∈ entries, 0 ≤ e.start ∧ 0 ≤ e.length) ∧
      (entries.Pairwise fun e e' => Disjoint e.reach e'.reach) ∧ entries.Perm entries' ∧
      ∃ l l', Layout.load 1 entries = .ok l ∧ Layout.load 0 entries' = .ok l' ∧
        visits l [3, 15, 20, 99, 16] = ["Start", "1", "3", "2", "Exit"] ∧
        visits l' [3, 15, 20, 99, 16] = ["Start", "1", "0", "2", "Exit"] ∧
        ∃ ρ : Equiv.Perm String, l.Renumbers ρ l' ∧ SameCourse ρ l l' [3, 15, 20, 99, 16] := by
  intro entries entries'
  have hsigns : ∀ e ∈ entries, 0 ≤ e.start ∧ 0 ≤ e.length := by simp [entries]
  have hordered : entries.Pairwise fun e e' => e.stop < e'.start := by decide
  have hapart : entries.Pairwise fun e e' => Disjoint e.reach e'.reach :=
    hordered.imp fun hlt => Set.disjoint_left.mpr fun a ha ha' =>
      not_lt.mpr ha'.1 (ha.2.trans_lt hlt)
  have hperm : entries.Perm entries' := by decide
  obtain ⟨l, l', h, h', ρ, hρ, hcourse, -, -⟩ :=
    ofSamples_relisted hsigns hapart hperm 1 0 "rotated" [3, 15, 20, 99, 16]
  have hvisits : visits l [3, 15, 20, 99, 16] = ["Start", "1", "3", "2", "Exit"] := by
    obtain rfl := Except.ok.inj (h.symm.trans rfl)
    rw [visits, Itinerary.ofTrace_eq]
    decide
  have hvisits' : visits l' [3, 15, 20, 99, 16] = ["Start", "1", "0", "2", "Exit"] := by
    obtain rfl := Except.ok.inj (h'.symm.trans rfl)
    rw [visits, Itinerary.ofTrace_eq]
    decide
  exact ⟨hsigns, hapart, hperm, l, l', h, h', hvisits, hvisits', ρ, hρ, hcourse⟩

end Analysis

end VisitGraph
