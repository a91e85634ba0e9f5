import VisitGraph.Layout

/-! # The routine that owns an address

Intervals may overlap, so an address belongs to the first routine in order that holds it. -/

namespace VisitGraph

/-- The address lies between the first and the last one of the routine, both included. Nothing
lies in a routine that lacks one of them. -/
def Routine.Holds (r : Routine) (address : Int) : Prop :=
  ∃ first last, r.first? = some first ∧ r.last? = some last ∧ first ≤ address ∧ address ≤ last

@[simp] theorem Routine.contains_eq_true_iff {r : Routine} {address : Int} :
    r.contains address = true ↔ r.Holds address := by
  obtain ⟨id, name, first?, last?⟩ := r
  cases first? <;> cases last? <;> simp [Routine.contains, Routine.Holds]

@[simp] theorem Routine.contains_eq_false_iff {r : Routine} {address : Int} :
    r.contains address = false ↔ ¬ r.Holds address := by
  rw [← contains_eq_true_iff, Bool.not_eq_true]

theorem Routine.start_not_holds (address : Int) : ¬ Routine.start.Holds address := by
  rintro ⟨first, last, hfirst, -⟩
  cases hfirst

theorem Routine.exit_not_holds (address : Int) : ¬ Routine.exit.Holds address := by
  rintro ⟨first, last, hfirst, -⟩
  cases hfirst

namespace Layout

/-- No routine before this one holds the address. -/
def Owns (l : Layout) (r : Routine) (address : Int) : Prop :=
  ∃ before after, l.routines = before ++ r :: after ∧ r.Holds address ∧
    ∀ q ∈ before, ¬ q.Holds address

theorem locate_eq_some_iff {l : Layout} {r : Routine} {address : Int} :
    l.locate address = some r ↔ l.Owns r address := by
  rw [locate, List.find?_eq_some_iff_append]
  simp only [Routine.contains_eq_true_iff, Bool.not_eq_true', Routine.contains_eq_false_iff]
  constructor
  · rintro ⟨hr, before, after, hl, hbefore⟩
    exact ⟨before, after, hl, hr, hbefore⟩
  · rintro ⟨before, after, hl, hr, hbefore⟩
    exact ⟨hr, before, after, hl, hbefore⟩

theorem locate_eq_none_iff {l : Layout} {address : Int} :
    l.locate address = none ↔ ∀ r ∈ l.routines, ¬ r.Holds address := by
  simp [locate]

/-- The owners of the samples in order; samples without an owner are left out. -/
inductive Hits (l : Layout) : List Int → List Routine → Prop where
  | nil : Hits l [] []
  | hit {address r samples hits} (h : l.Owns r address) :
      Hits l samples hits → Hits l (address :: samples) (r :: hits)
  | miss {address samples hits} (h : ∀ r ∈ l.routines, ¬ r.Holds address) :
      Hits l samples hits → Hits l (address :: samples) hits

/-- The routines found for the samples, one search for each. -/
def hits (l : Layout) (samples : List Int) : List Routine :=
  samples.filterMap l.locate

theorem Hits.eq_hits {l : Layout} {samples : List Int} {found : List Routine}
    (h : l.Hits samples found) : l.hits samples = found := by
  induction h with
  | nil => rfl
  | hit h _ ih =>
      rw [hits, List.filterMap_cons_some (locate_eq_some_iff.mpr h)]
      exact congrArg _ ih
  | miss h _ ih =>
      rw [hits, List.filterMap_cons_none (locate_eq_none_iff.mpr h)]
      exact ih

theorem hits_hits (l : Layout) (samples : List Int) : l.Hits samples (l.hits samples) := by
  induction samples with
  | nil => exact .nil
  | cons address samples ih =>
      cases h : l.locate address with
      | none =>
          rw [hits, List.filterMap_cons_none h]
          exact .miss (locate_eq_none_iff.mp h) ih
      | some r =>
          rw [hits, List.filterMap_cons_some h]
          exact .hit (locate_eq_some_iff.mp h) ih

theorem hits_iff {l : Layout} {samples : List Int} {found : List Routine} :
    l.Hits samples found ↔ l.hits samples = found :=
  ⟨Hits.eq_hits, fun h => h ▸ hits_hits l samples⟩

theorem mem_hits {l : Layout} {samples : List Int} {r : Routine} :
    r ∈ l.hits samples ↔ ∃ address ∈ samples, l.Owns r address := by
  simp [hits, locate_eq_some_iff]

theorem hits_eq_nil {l : Layout} {samples : List Int} :
    l.hits samples = [] ↔ ∀ address ∈ samples, ∀ r ∈ l.routines, ¬ r.Holds address := by
  simp only [hits, List.filterMap_eq_nil_iff, locate_eq_none_iff]

theorem holds_of_mem_hits {l : Layout} {samples : List Int} {r : Routine}
    (h : r ∈ l.hits samples) : ∃ address ∈ samples, r.Holds address := by
  obtain ⟨address, hmem, -, -, -, hr, -⟩ := mem_hits.mp h
  exact ⟨address, hmem, hr⟩

theorem start_notMem_hits (l : Layout) (samples : List Int) : Routine.start ∉ l.hits samples := by
  intro h
  obtain ⟨address, -, hr⟩ := holds_of_mem_hits h
  exact Routine.start_not_holds address hr

theorem exit_notMem_hits (l : Layout) (samples : List Int) : Routine.exit ∉ l.hits samples := by
  intro h
  obtain ⟨address, -, hr⟩ := holds_of_mem_hits h
  exact Routine.exit_not_holds address hr

end VisitGraph.Layout
