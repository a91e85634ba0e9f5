import Mathlib.Data.List.Destutter
import VisitGraph.Itinerary

/-! # Collapsing immediate repeats

Of each run of equal elements `collapse` keeps one. The result is the only list without equal
neighbours from which the input arises by repeating elements. -/

namespace VisitGraph

variable {α : Type}

/-- Each element as often as its count says. -/
def repeatEach (counts : List ℕ) (ys : List α) : List α :=
  (List.zipWith List.replicate counts ys).flatten

/-- One list is another with every run shrunk to one element: it has no equal neighbours, and
repeating its elements gives the other back. -/
structure IsCollapse (xs ys : List α) : Prop where
  neighbours : ys.IsChain (· ≠ ·)
  runs : ∃ counts : List ℕ, counts.length = ys.length ∧ (∀ n ∈ counts, 0 < n) ∧
    repeatEach counts ys = xs

variable [DecidableEq α]

/-! ## One element at a time -/

@[simp] theorem collapse_nil : collapse ([] : List α) = [] := rfl

@[simp] theorem collapse_singleton (x : α) : collapse [x] = [x] := rfl

@[simp] theorem head?_collapse (xs : List α) : (collapse xs).head? = xs.head? := by
  cases xs with
  | nil => rfl
  | cons x xs =>
      change (if (collapse xs).head? = some x then collapse xs else x :: collapse xs).head? = some x
      split
      · assumption
      · rfl

theorem collapse_cons (x : α) (xs : List α) :
    collapse (x :: xs) = if xs.head? = some x then collapse xs else x :: collapse xs := by
  rw [← head?_collapse xs]
  rfl

theorem collapse_cons_of_eq {x : α} {xs : List α} (h : xs.head? = some x) :
    collapse (x :: xs) = collapse xs := by
  rw [collapse_cons, if_pos h]

theorem collapse_cons_of_ne {x : α} {xs : List α} (h : xs.head? ≠ some x) :
    collapse (x :: xs) = x :: collapse xs := by
  rw [collapse_cons, if_neg h]

theorem collapse_cons_congr (x : α) {xs ys : List α} (h : collapse xs = collapse ys) :
    collapse (x :: xs) = collapse (x :: ys) := by
  have hhead : xs.head? = ys.head? := by
    rw [← head?_collapse xs, h, head?_collapse]
  rw [collapse_cons, collapse_cons, hhead, h]

/-- Going through the list from the left, as `destutter` does, keeps the same elements. -/
theorem collapse_eq_destutter (xs : List α) : collapse xs = xs.destutter (· ≠ ·) := by
  induction xs with
  | nil => rfl
  | cons x xs ih =>
      cases xs with
      | nil => rfl
      | cons y ys =>
          rw [List.destutter_cons_cons]
          by_cases h : x = y
          · subst h
            rw [collapse_cons_of_eq rfl, if_neg (by simp), ih, List.destutter_cons']
          · rw [collapse_cons_of_ne (by simpa using Ne.symm h), if_pos h, ih,
              List.destutter_cons']

/-- Elements that are told apart after a renaming are collapsed as before. -/
theorem collapse_map {β : Type} [DecidableEq β] {f : α → β} (hf : Function.Injective f)
    (xs : List α) : collapse (xs.map f) = (collapse xs).map f := by
  rw [collapse_eq_destutter, collapse_eq_destutter, List.map_destutter_ne xs hf]

/-! ## The collapsed list -/

theorem isChain_collapse (xs : List α) : (collapse xs).IsChain (· ≠ ·) := by
  rw [collapse_eq_destutter]
  exact List.isChain_destutter _ _

theorem collapse_of_isChain {xs : List α} (h : xs.IsChain (· ≠ ·)) : collapse xs = xs := by
  rw [collapse_eq_destutter]
  exact List.destutter_of_isChain _ _ h

@[simp] theorem mem_collapse {a : α} {xs : List α} : a ∈ collapse xs ↔ a ∈ xs := by
  induction xs with
  | nil => simp
  | cons x xs ih =>
      rw [collapse_cons]
      split
      · rename_i h
        have hx : x ∈ xs := List.mem_of_head? h
        rw [ih, List.mem_cons]
        exact ⟨Or.inr, fun h => h.elim (· ▸ hx) id⟩
      · simp [ih]

@[simp] theorem collapse_eq_nil {xs : List α} : collapse xs = [] ↔ xs = [] := by
  rw [← List.head?_eq_none_iff, head?_collapse, List.head?_eq_none_iff]

/-- Lists that meet in different elements are collapsed apart. -/
theorem collapse_append {xs ys : List α} (h : ∀ x ∈ xs.getLast?, ys.head? ≠ some x) :
    collapse (xs ++ ys) = collapse xs ++ collapse ys := by
  induction xs with
  | nil => rfl
  | cons x xs ih =>
      cases xs with
      | nil => exact collapse_cons_of_ne (h x rfl)
      | cons y zs =>
          have ih := ih (by simpa using h)
          by_cases hxy : y = x
          · subst hxy
            rw [List.cons_append, collapse_cons_of_eq rfl, collapse_cons_of_eq rfl, ih]
          · rw [List.cons_append, collapse_cons_of_ne (by simpa using hxy),
              collapse_cons_of_ne (by simpa using hxy), ih, List.cons_append]

/-! ## Runs -/

theorem collapse_replicate_append (n : ℕ) (x : α) (xs : List α) :
    collapse (List.replicate (n + 1) x ++ xs) = collapse (x :: xs) := by
  induction n with
  | zero => rfl
  | succ n ih =>
      have hhead : (List.replicate (n + 1) x ++ xs).head? = some x := by
        simp [List.replicate_succ]
      rw [List.replicate_succ, List.cons_append, collapse_cons_of_eq hhead, ih]

theorem exists_repeatEach_collapse (xs : List α) :
    ∃ counts : List ℕ, counts.length = (collapse xs).length ∧ (∀ n ∈ counts, 0 < n) ∧
      repeatEach counts (collapse xs) = xs := by
  induction xs with
  | nil => exact ⟨[], rfl, by simp, rfl⟩
  | cons x xs ih =>
      obtain ⟨counts, hlength, hpos, hruns⟩ := ih
      by_cases h : xs.head? = some x
      · -- The first run grows by one.
        rw [collapse_cons_of_eq h]
        rw [← head?_collapse] at h
        obtain ⟨ys, hys⟩ := List.head?_eq_some_iff.mp h
        rw [hys] at hlength hruns ⊢
        cases counts with
        | nil => simp at hlength
        | cons n counts =>
            refine ⟨(n + 1) :: counts, by simpa using hlength, ?_, ?_⟩
            · simpa using fun m hm => hpos m (List.mem_cons_of_mem n hm)
            · simpa [repeatEach, List.replicate_succ] using hruns
      · rw [collapse_cons_of_ne h]
        refine ⟨1 :: counts, by simpa using hlength, by simpa using hpos, ?_⟩
        simpa [repeatEach] using hruns

theorem isCollapse_collapse (xs : List α) : IsCollapse xs (collapse xs) :=
  ⟨isChain_collapse xs, exists_repeatEach_collapse xs⟩

/-- Repeating the elements of a list in place does not change what it collapses to. -/
theorem collapse_repeatEach (ys : List α) (counts : List ℕ) (hlength : counts.length = ys.length)
    (hpos : ∀ n ∈ counts, 0 < n) : collapse (repeatEach counts ys) = collapse ys := by
  induction ys generalizing counts with
  | nil => simp [repeatEach]
  | cons y ys ih =>
      cases counts with
      | nil => simp at hlength
      | cons n counts =>
          obtain ⟨hn, hrest⟩ := List.forall_mem_cons.mp hpos
          obtain ⟨m, rfl⟩ := Nat.exists_eq_add_one_of_ne_zero hn.ne'
          have ih := ih counts (by simpa using hlength) hrest
          change collapse (List.replicate (m + 1) y ++ repeatEach counts ys) = _
          rw [collapse_replicate_append, collapse_cons_congr y ih]

theorem isCollapse_iff {xs ys : List α} : IsCollapse xs ys ↔ collapse xs = ys := by
  constructor
  · rintro ⟨hne, counts, hlength, hpos, rfl⟩
    rw [collapse_repeatEach ys counts hlength hpos, collapse_of_isChain hne]
  · rintro rfl
    exact isCollapse_collapse xs

end VisitGraph
