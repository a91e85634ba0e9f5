import Mathlib.Logic.Relation
import VisitGraph.Proofs.Itinerary.Pieces

/-! # Lists up to repeats

A list can be changed by repeating one of its elements in place, or by leaving out such a repeat.
Two lists collapse to the same one exactly if the one can be changed into the other in this way, so
the collapsed list is a normal form. -/

namespace VisitGraph

variable {α : Type}

/-- The second list repeats one element of the first in place, and is otherwise the same. -/
inductive Repeats : List α → List α → Prop
  | intro (front : List α) (x : α) (rest : List α) :
      Repeats (front ++ x :: rest) (front ++ x :: x :: rest)

/-- The one list is changed into the other by inserting repeats and leaving them out. -/
def SameUpToRepeats : List α → List α → Prop :=
  Relation.EqvGen Repeats

namespace Repeats

variable {xs ys : List α}

theorem append_left (h : Repeats xs ys) (zs : List α) : Repeats (zs ++ xs) (zs ++ ys) := by
  obtain ⟨front, x, rest⟩ := h
  rw [← List.append_assoc, ← List.append_assoc]
  exact ⟨zs ++ front, x, rest⟩

theorem append_right (h : Repeats xs ys) (zs : List α) : Repeats (xs ++ zs) (ys ++ zs) := by
  obtain ⟨front, x, rest⟩ := h
  rw [List.append_assoc, List.append_assoc]
  exact ⟨front, x, rest ++ zs⟩

theorem collapse_eq [DecidableEq α] (h : Repeats xs ys) : collapse xs = collapse ys := by
  obtain ⟨front, x, rest⟩ := h
  exact collapse_append_congr front (collapse_cons_of_eq rfl).symm

end Repeats

namespace SameUpToRepeats

variable {xs xs' ys ys' : List α}

/-- A change that can be made to a list can be made to it as a part of another one. -/
theorem lift {f : List α → List α} (hf : ∀ xs ys, Repeats xs ys → Repeats (f xs) (f ys))
    (h : SameUpToRepeats xs ys) : SameUpToRepeats (f xs) (f ys) := by
  induction h with
  | rel xs ys h => exact .rel _ _ (hf xs ys h)
  | refl xs => exact .refl _
  | symm xs ys _ ih => exact .symm _ _ ih
  | trans xs ys zs _ _ ih ih' => exact .trans _ _ _ ih ih'

theorem cons (x : α) (h : SameUpToRepeats xs ys) : SameUpToRepeats (x :: xs) (x :: ys) :=
  h.lift fun _ _ h => h.append_left [x]

theorem append (h : SameUpToRepeats xs ys) (h' : SameUpToRepeats xs' ys') :
    SameUpToRepeats (xs ++ xs') (ys ++ ys') := by
  have hfront : SameUpToRepeats (xs ++ xs') (ys ++ xs') :=
    h.lift fun _ _ h => h.append_right xs'
  have hrest : SameUpToRepeats (ys ++ xs') (ys ++ ys') :=
    h'.lift fun _ _ h => h.append_left ys
  exact .trans _ _ _ hfront hrest

variable [DecidableEq α]

theorem collapse_eq (h : SameUpToRepeats xs ys) : collapse xs = collapse ys := by
  induction h with
  | rel xs ys h => exact h.collapse_eq
  | refl xs => rfl
  | symm xs ys _ ih => exact ih.symm
  | trans xs ys zs _ _ ih ih' => exact ih.trans ih'

end SameUpToRepeats

variable [DecidableEq α]

/-- Collapsing only leaves out repeats. -/
theorem sameUpToRepeats_collapse (xs : List α) : SameUpToRepeats xs (collapse xs) := by
  induction xs with
  | nil => exact .refl []
  | cons x xs ih =>
      have hcons : SameUpToRepeats (x :: xs) (x :: collapse xs) := ih.cons x
      by_cases h : xs.head? = some x
      · -- the rest of the list begins with the element already
        rw [collapse_cons_of_eq h]
        rw [collapse_eq_cons_of_head? h] at hcons ⊢
        have hrepeat : Repeats (x :: (collapse xs).tail) (x :: x :: (collapse xs).tail) :=
          ⟨[], x, (collapse xs).tail⟩
        exact .trans _ _ _ hcons (.symm _ _ (.rel _ _ hrepeat))
      · rwa [collapse_cons_of_ne h]

theorem collapse_eq_collapse_iff {xs ys : List α} :
    collapse xs = collapse ys ↔ SameUpToRepeats xs ys := by
  refine ⟨fun h => ?_, SameUpToRepeats.collapse_eq⟩
  have hxs := sameUpToRepeats_collapse xs
  have hys := sameUpToRepeats_collapse ys
  rw [h] at hxs
  exact .trans _ _ _ hxs (.symm _ _ hys)

theorem collapse_collapse (xs : List α) : collapse (collapse xs) = collapse xs :=
  collapse_of_isChain (isChain_collapse xs)

/-- Parts can be collapsed before the whole. -/
theorem collapse_append_collapse (xs ys : List α) :
    collapse (xs ++ ys) = collapse (collapse xs ++ collapse ys) :=
  ((sameUpToRepeats_collapse xs).append (sameUpToRepeats_collapse ys)).collapse_eq

/-- The collapsed list is the only one without equal neighbours that gives the list back when its
elements are repeated. It is the same for two lists exactly if they differ by repeats alone, it is
collapsed already, and it can be found from the collapsed parts of a list. -/
theorem collapse_normalForm (xs xs' : List α) :
    (∀ ys, IsCollapse xs ys ↔ collapse xs = ys) ∧
      (collapse xs = collapse xs' ↔ SameUpToRepeats xs xs') ∧
      collapse (collapse xs) = collapse xs ∧
      collapse (xs ++ xs') = collapse (collapse xs ++ collapse xs') :=
  ⟨fun _ => isCollapse_iff, collapse_eq_collapse_iff, collapse_collapse xs,
    collapse_append_collapse xs xs'⟩

end VisitGraph
