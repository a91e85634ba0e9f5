import VisitGraph.Proofs.Itinerary.Collapse
import VisitGraph.Proofs.Locator.Memory

/-! # The outline of an itinerary

An itinerary runs from start to exit through the owners of the samples, without immediate repeats.
Neither end owns an address, so collapsing cannot touch the ends. -/

namespace VisitGraph.Itinerary

/-- What lies between start and exit. -/
def interior (l : Layout) (samples : List Int) : List Routine :=
  collapse (l.hits samples)

theorem ofTrace_eq_ofHits (l : Layout) (samples : List Int) :
    ofTrace l samples = ofHits (l.hits samples) := by
  obtain ⟨s, hrun, -⟩ := Locator.reduce_of_knows (Locator.knows_new l) samples
  rw [ofTrace, hrun]

theorem ofHits_eq {hits : List Routine} (hstart : .start ∉ hits) (hexit : .exit ∉ hits) :
    ofHits hits = .start :: collapse hits ++ [.exit] := by
  have hfront : (hits ++ [Routine.exit]).head? ≠ some .start := by
    cases hits with
    | nil => simp [Routine.start, Routine.exit]
    | cons r hits =>
        rintro ⟨⟩
        exact hstart List.mem_cons_self
  have hback : ∀ r ∈ hits.getLast?, [Routine.exit].head? ≠ some r := by
    rintro r hr ⟨⟩
    exact hexit (List.mem_of_getLast? hr)
  rw [ofHits, List.cons_append, collapse_cons_of_ne hfront, collapse_append hback,
    collapse_singleton, List.cons_append]

theorem ofTrace_eq (l : Layout) (samples : List Int) :
    ofTrace l samples = .start :: interior l samples ++ [.exit] := by
  rw [ofTrace_eq_ofHits, ofHits_eq (l.start_notMem_hits samples) (l.exit_notMem_hits samples)]
  rfl

theorem mem_interior {l : Layout} {samples : List Int} {r : Routine} :
    r ∈ interior l samples ↔ ∃ address ∈ samples, l.Owns r address := by
  rw [interior, mem_collapse, Layout.mem_hits]

theorem mem_routines_of_mem_interior {l : Layout} {samples : List Int} {r : Routine}
    (h : r ∈ interior l samples) : r ∈ l.routines := by
  obtain ⟨address, -, before, after, hl, -⟩ := mem_interior.mp h
  simp [hl]

theorem start_notMem_interior (l : Layout) (samples : List Int) : .start ∉ interior l samples := by
  rw [interior, mem_collapse]
  exact l.start_notMem_hits samples

theorem exit_notMem_interior (l : Layout) (samples : List Int) : .exit ∉ interior l samples := by
  rw [interior, mem_collapse]
  exact l.exit_notMem_hits samples

theorem interior_eq_nil {l : Layout} {samples : List Int} :
    interior l samples = [] ↔ ∀ address ∈ samples, ∀ r ∈ l.routines, ¬ r.Holds address := by
  rw [interior, collapse_eq_nil, Layout.hits_eq_nil]

theorem isChain_ofTrace (l : Layout) (samples : List Int) :
    (ofTrace l samples).IsChain (· ≠ ·) := by
  rw [ofTrace_eq_ofHits]
  exact isChain_collapse _

theorem count_start_ofTrace (l : Layout) (samples : List Int) :
    (ofTrace l samples).count .start = 1 := by
  rw [ofTrace_eq, List.cons_append, List.count_cons_self, List.count_append,
    List.count_eq_zero_of_not_mem (start_notMem_interior l samples)]
  rfl

theorem count_exit_ofTrace (l : Layout) (samples : List Int) :
    (ofTrace l samples).count .exit = 1 := by
  rw [ofTrace_eq, List.cons_append, List.count_cons_of_ne (by decide), List.count_append,
    List.count_eq_zero_of_not_mem (exit_notMem_interior l samples)]
  rfl

theorem ofTrace_eq_ends_iff {l : Layout} {samples : List Int} :
    ofTrace l samples = [.start, .exit] ↔
      ∀ address ∈ samples, ∀ r ∈ l.routines, ¬ r.Holds address := by
  rw [← interior_eq_nil, ofTrace_eq]
  simp

/-- An itinerary is the collapsed list of the owners of its samples between start and exit, which
occur nowhere else; no routine follows itself, and only the ends are left when nothing is hit. -/
theorem ofTrace_outline (l : Layout) (samples : List Int) :
    ∃ found interior, l.Hits samples found ∧ IsCollapse found interior ∧
      ofTrace l samples = .start :: interior ++ [.exit] ∧
      (ofTrace l samples).count .start = 1 ∧ (ofTrace l samples).count .exit = 1 ∧
      (ofTrace l samples).IsChain (· ≠ ·) ∧
      (∀ r, r ∈ interior ↔ ∃ address ∈ samples, l.Owns r address) ∧
      (ofTrace l samples = [.start, .exit] ↔
        ∀ address ∈ samples, ∀ r ∈ l.routines, ¬ r.Holds address) := by
  refine ⟨l.hits samples, interior l samples, l.hits_hits samples, isCollapse_collapse _,
    ofTrace_eq l samples, count_start_ofTrace l samples, count_exit_ofTrace l samples,
    isChain_ofTrace l samples, fun r => mem_interior, ofTrace_eq_ends_iff⟩

end VisitGraph.Itinerary
