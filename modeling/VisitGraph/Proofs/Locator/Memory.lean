import Mathlib.Data.Finset.Card
import Mathlib.Data.List.Basic
import VisitGraph.Itinerary
import VisitGraph.Proofs.Layout.Ownership
import VisitGraph.Proofs.Outcome

/-! # What a locator remembers

Whatever a locator was asked before, it answers as a search through the layout would, and it knows
exactly the addresses it was asked for. -/

namespace VisitGraph.Locator

/-- The locator was asked for these addresses and no others: it has an answer to each of them,
misses included, and the answer is what a search finds. -/
structure Knows (l : Layout) (asked : List Int) (s : Locator) : Prop where
  layout : s.layout = l
  known : ∀ address, s.known[address]? = if address ∈ asked then some (l.locate address) else none
  size : s.known.size = asked.toFinset.card

theorem knows_new (l : Layout) : Knows l [] (.new l) :=
  ⟨rfl, by simp [new], by simp [new]⟩

/-- A request adds its address to what is known, and is answered by the search. -/
theorem resolve_of_knows {l : Layout} {asked : List Int} {s : Locator} (h : Knows l asked s)
    (address : Int) :
    ∃ s', (resolve address).run s = (l.locate address, s') ∧ Knows l (asked ++ [address]) s' := by
  by_cases hmem : address ∈ asked
  · have hknown : s.known[address]? = some (l.locate address) := by
      rw [h.known, if_pos hmem]
    refine ⟨s, ?_, h.layout, ?_, ?_⟩
    · simp [StateT.run, resolve, hknown]
    · intro b
      rw [h.known]
      by_cases hb : b = address <;> simp [hb, hmem]
    · rw [h.size]
      congr 1
      ext b
      by_cases hb : b = address <;> simp [hb, hmem]
  · have hknown : s.known[address]? = none := by
      rw [h.known, if_neg hmem]
    refine ⟨{ s with known := s.known.insert address (l.locate address) }, ?_, h.layout, ?_, ?_⟩
    · simp [StateT.run, resolve, hknown, h.layout]
    · intro b
      rw [Std.HashMap.getElem?_insert, h.known]
      by_cases hb : b = address
      · simp [hb]
      · simp [hb, Ne.symm hb]
    · have hnew : address ∉ s.known := by
        simpa using hknown
      rw [Std.HashMap.size_insert, if_neg hnew, h.size]
      have hfresh : address ∉ asked.toFinset := by simpa using hmem
      rw [List.toFinset_append, Finset.union_comm, List.toFinset_cons, List.toFinset_nil,
        Finset.insert_union, Finset.empty_union, Finset.card_insert_of_notMem hfresh]

theorem resolveAll_of_knows {l : Layout} {asked : List Int} {s : Locator} (h : Knows l asked s)
    (samples : List Int) :
    ∃ s', (resolveAll samples).run s = (l.hits samples, s') ∧ Knows l (asked ++ samples) s' := by
  have hrun : ∃ s', (samples.mapM resolve).run s = (samples.map l.locate, s') ∧
      Knows l (asked ++ samples) s' := by
    induction samples generalizing asked s with
    | nil => exact ⟨s, rfl, by simpa using h⟩
    | cons address samples ih =>
        obtain ⟨s₁, hfirst, h₁⟩ := resolve_of_knows h address
        obtain ⟨s₂, hrest, h₂⟩ := ih h₁
        refine ⟨s₂, ?_, by simpa using h₂⟩
        rw [List.mapM_cons, run_bind_of_run hfirst, run_bind_of_run hrest]
        rfl
  obtain ⟨s', hrun, h'⟩ := hrun
  refine ⟨s', ?_, h'⟩
  rw [resolveAll, run_bind_of_run hrun, List.filterMap_map]
  rfl

theorem reduce_of_knows {l : Layout} {asked : List Int} {s : Locator} (h : Knows l asked s)
    (samples : List Int) :
    ∃ s', (Itinerary.reduce samples).run s = (Itinerary.ofHits (l.hits samples), s') ∧
      Knows l (asked ++ samples) s' := by
  obtain ⟨s', hrun, h'⟩ := resolveAll_of_knows h samples
  refine ⟨s', ?_, h'⟩
  rw [Itinerary.reduce, run_bind_of_run hrun]
  rfl

end VisitGraph.Locator
