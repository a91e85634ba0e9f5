import Mathlib.Algebra.Order.BigOperators.Group.Finset
import VisitGraph.Proofs.Itinerary.Collapse

/-! # Collapsing a list in pieces

Two lists are collapsed apart, unless they meet in the same element: then the run at the seam is one
run. An element added at the end is kept if it begins a run, so that the elements of the collapsed
list are counted by the places where their runs begin. -/

namespace VisitGraph

variable {α : Type}

/-- The lists meet in the element: the one ends with it and the other begins with it. -/
abbrev MeetIn (xs ys : List α) (x : α) : Prop :=
  xs.getLast? = some x ∧ ys.head? = some x

variable [DecidableEq α]

@[simp] theorem getLast?_collapse (xs : List α) : (collapse xs).getLast? = xs.getLast? := by
  induction xs with
  | nil => rfl
  | cons x xs ih =>
      by_cases h : xs.head? = some x
      · obtain ⟨ys, rfl⟩ := List.head?_eq_some_iff.mp h
        rw [collapse_cons_of_eq h, ih, List.getLast?_cons_cons]
      · rw [collapse_cons_of_ne h, List.getLast?_cons, List.getLast?_cons, ih]

theorem collapse_eq_cons_of_head? {x : α} {xs : List α} (h : xs.head? = some x) :
    collapse xs = x :: (collapse xs).tail := by
  rw [← head?_collapse] at h
  exact List.eq_cons_of_mem_head? h

theorem collapse_append_congr (xs : List α) {ys zs : List α} (h : collapse ys = collapse zs) :
    collapse (xs ++ ys) = collapse (xs ++ zs) := by
  induction xs with
  | nil => exact h
  | cons x xs ih => exact collapse_cons_congr x ih

/-- Lists that meet in an element share a run of it. -/
theorem collapse_append_of_meetIn {xs ys : List α} {x : α} (h : MeetIn xs ys x) :
    collapse (xs ++ ys) = collapse xs ++ (collapse ys).tail := by
  obtain ⟨hlast, hhead⟩ := h
  obtain ⟨front, rfl⟩ := List.getLast?_eq_some_iff.mp hlast
  clear hlast
  induction front with
  | nil =>
      rw [List.nil_append, List.singleton_append, collapse_cons_of_eq hhead, collapse_singleton,
        List.singleton_append, ← collapse_eq_cons_of_head? hhead]
  | cons y front ih =>
      have hfront : (front ++ [x] ++ ys).head? = (front ++ [x]).head? := by
        cases front <;> rfl
      rw [List.cons_append, List.cons_append, collapse_cons, collapse_cons, ih, hfront]
      split
      · rfl
      · rw [List.cons_append]

theorem collapse_append_of_not_meetIn {xs ys : List α} (h : ∀ x, ¬ MeetIn xs ys x) :
    collapse (xs ++ ys) = collapse xs ++ collapse ys :=
  collapse_append fun x hx hhead => h x ⟨hx, hhead⟩

theorem collapse_concat (xs : List α) (x : α) :
    collapse (xs ++ [x]) = if xs.getLast? = some x then collapse xs else collapse xs ++ [x] := by
  split
  · rename_i h
    rw [collapse_append_of_meetIn ⟨h, rfl⟩, collapse_singleton, List.tail_cons, List.append_nil]
  · rename_i h
    refine collapse_append_of_not_meetIn ?_
    rintro y ⟨hlast, ⟨⟩⟩
    exact h hlast

/-! ## Counting in pieces -/

/-- How many runs of an element a list has: the places that hold the element without holding it just
before. -/
def runs (x : α) (xs : List α) : ℕ :=
  ((Finset.range xs.length).filter fun i =>
    xs[i]? = some x ∧ (i = 0 ∨ xs[i - 1]? ≠ some x)).card

theorem runs_concat (x : α) (xs : List α) (y : α) :
    runs x (xs ++ [y]) = runs x xs + if y = x ∧ xs.getLast? ≠ some x then 1 else 0 := by
  have hpast : ∀ i ∈ Finset.range xs.length,
      ((xs ++ [y])[i]? = some x ∧ (i = 0 ∨ (xs ++ [y])[i - 1]? ≠ some x)) ↔
        (xs[i]? = some x ∧ (i = 0 ∨ xs[i - 1]? ≠ some x)) := by
    intro i hi
    rw [Finset.mem_range] at hi
    rw [List.getElem?_append_left hi, List.getElem?_append_left (by omega)]
  have hnew : ((xs ++ [y])[xs.length]? = some x ∧
      (xs.length = 0 ∨ (xs ++ [y])[xs.length - 1]? ≠ some x)) ↔
        y = x ∧ xs.getLast? ≠ some x := by
    cases xs with
    | nil => simp
    | cons z zs =>
        rw [List.getElem?_concat_length, List.getElem?_append_left (by simp),
          List.getLast?_eq_getElem?]
        simp
  rw [runs, List.length_append, List.length_singleton, Finset.range_add_one, Finset.filter_insert,
    Finset.filter_congr hpast]
  simp only [hnew]
  split
  · rw [Finset.card_insert_of_notMem (by simp), runs]
  · rfl

/-- Of each run the collapsed list has one element. -/
theorem count_collapse (x : α) (xs : List α) : (collapse xs).count x = runs x xs := by
  induction xs using List.reverseRecOn with
  | nil => rfl
  | append_singleton xs y ih =>
      rw [collapse_concat, runs_concat, ← ih]
      by_cases hy : y = x
      · subst hy
        by_cases hlast : xs.getLast? = some y <;> simp [hlast]
      · split <;> simp [hy]

theorem count_collapse_append (xs ys : List α) (x : α) :
    (collapse (xs ++ ys)).count x + (if MeetIn xs ys x then 1 else 0) =
      (collapse xs).count x + (collapse ys).count x := by
  by_cases hmeet : ∃ y, MeetIn xs ys y
  · obtain ⟨y, hy⟩ := hmeet
    have hx : MeetIn xs ys x ↔ y = x := by
      simp [MeetIn, hy.1, hy.2]
    rw [collapse_append_of_meetIn hy, List.count_append]
    conv_rhs => rw [collapse_eq_cons_of_head? hy.2, List.count_cons]
    simp only [hx, beq_iff_eq]
    omega
  · have hx : ¬ MeetIn xs ys x := fun h => hmeet ⟨x, h⟩
    rw [if_neg hx, collapse_append_of_not_meetIn fun y hy => hmeet ⟨y, hy⟩, List.count_append]
    rfl

/-- The neighbours in a list of two pieces are those in the pieces and those at the seam. -/
theorem count_neighbours_append (xs ys : List α) (p : α × α) :
    ((xs ++ ys).zip (xs ++ ys).tail).count p =
      (xs.zip xs.tail).count p + (ys.zip ys.tail).count p +
        if xs.getLast? = some p.1 ∧ ys.head? = some p.2 then 1 else 0 := by
  induction xs with
  | nil => simp
  | cons x xs ih =>
      cases xs with
      | nil =>
          cases ys with
          | nil => simp
          | cons y ys =>
              obtain ⟨a, b⟩ := p
              simp [List.count_cons]
      | cons z zs =>
          simp only [List.cons_append, List.tail_cons, List.zip_cons_cons, List.count_cons,
            List.getLast?_cons_cons] at ih ⊢
          omega

/-- Collapsing removes no neighbours that differ, so only the seam is added to those in the
pieces. -/
theorem count_neighbours_collapse_append (xs ys : List α) {p : α × α} (hne : p.1 ≠ p.2) :
    ((collapse (xs ++ ys)).zip (collapse (xs ++ ys)).tail).count p =
      ((collapse xs).zip (collapse xs).tail).count p +
        ((collapse ys).zip (collapse ys).tail).count p +
          if xs.getLast? = some p.1 ∧ ys.head? = some p.2 then 1 else 0 := by
  by_cases hmeet : ∃ y, MeetIn xs ys y
  · obtain ⟨y, hy⟩ := hmeet
    have hys : collapse ys = [y] ++ (collapse ys).tail := collapse_eq_cons_of_head? hy.2
    have hseam : ¬ (xs.getLast? = some p.1 ∧ ys.head? = some p.2) := by
      rintro ⟨hlast, hhead⟩
      rw [hy.1] at hlast
      rw [hy.2] at hhead
      exact hne (Option.some.inj (hlast.symm.trans hhead))
    -- The element at the seam begins the second piece as it ends the first.
    have hrest := count_neighbours_append [y] (collapse ys).tail p
    rw [← hys] at hrest
    rw [if_neg hseam, collapse_append_of_meetIn hy, count_neighbours_append, getLast?_collapse,
      hy.1, hrest]
    simp [Nat.add_assoc]
  · rw [collapse_append_of_not_meetIn fun y hy => hmeet ⟨y, hy⟩, count_neighbours_append,
      getLast?_collapse, head?_collapse]

end VisitGraph
