import Mathlib.Data.Countable.Defs
import Mathlib.SetTheory.Cardinal.Arithmetic

/-! # Lists of one pattern

Two lists have the same pattern if they are equally long and the same places hold equal elements.
Then the one arises from the other by renaming its elements, and the renaming can be taken from the
permutations of a type that is large enough. -/

namespace VisitGraph

variable {α β γ δ : Type}

structure SamePattern (xs : List α) (ys : List β) : Prop where
  length_eq : xs.length = ys.length
  getElem?_eq_iff : ∀ i < xs.length, ∀ j < xs.length, xs[i]? = xs[j]? ↔ ys[i]? = ys[j]?

instance [DecidableEq α] [DecidableEq β] (xs : List α) (ys : List β) :
    Decidable (SamePattern xs ys) :=
  decidable_of_iff
    (xs.length = ys.length ∧ ∀ i < xs.length, ∀ j < xs.length, xs[i]? = xs[j]? ↔ ys[i]? = ys[j]?)
    ⟨fun h => ⟨h.1, h.2⟩, fun h => ⟨h.length_eq, h.getElem?_eq_iff⟩⟩

theorem SamePattern.map {xs : List α} {ys : List β} (h : SamePattern xs ys) {f : α → γ} {g : β → δ}
    (hf : Set.InjOn f {x | x ∈ xs}) (hg : Set.InjOn g {y | y ∈ ys}) :
    SamePattern (xs.map f) (ys.map g) := by
  have hinj : ∀ {ε ζ : Type} {zs : List ε} {k : ε → ζ}, Set.InjOn k {z | z ∈ zs} →
      ∀ i < zs.length, ∀ j < zs.length, (zs.map k)[i]? = (zs.map k)[j]? ↔ zs[i]? = zs[j]? := by
    intro ε ζ zs k hk i hi j hj
    rw [List.getElem?_map, List.getElem?_map, List.getElem?_eq_getElem hi,
      List.getElem?_eq_getElem hj, Option.map_some, Option.map_some, Option.some_inj,
      Option.some_inj]
    exact hk.eq_iff (List.getElem_mem hi) (List.getElem_mem hj)
  refine ⟨by simp [h.length_eq], ?_⟩
  intro i hi j hj
  rw [List.length_map] at hi hj
  rw [hinj hf i hi j hj, h.getElem?_eq_iff i hi j hj,
    hinj hg i (h.length_eq ▸ hi) j (h.length_eq ▸ hj)]

/-- Each element is renamed to what the other list holds at its first place. -/
theorem SamePattern.exists_injOn [DecidableEq α] [Inhabited β] {xs : List α} {ys : List β}
    (h : SamePattern xs ys) : ∃ f : α → β, ys = xs.map f ∧ Set.InjOn f {x | x ∈ xs} := by
  have hplace : ∀ i (hi : i < xs.length), ys[xs.idxOf xs[i]]? = ys[i]? := by
    intro i hi
    have hfirst : xs.idxOf xs[i] < xs.length := List.idxOf_lt_length_of_mem (List.getElem_mem hi)
    rw [← h.getElem?_eq_iff _ hfirst _ hi, List.getElem?_eq_getElem hfirst,
      List.getElem?_eq_getElem hi, List.getElem_idxOf]
  refine ⟨fun x => (ys[xs.idxOf x]?).getD default, ?_, ?_⟩
  · refine List.ext_getElem (by simp [h.length_eq]) fun i hi hi' => ?_
    rw [List.length_map] at hi'
    rw [List.getElem_map, hplace i hi', List.getElem?_eq_getElem hi, Option.getD_some]
  · intro x hx y hy heq
    obtain ⟨i, hi, rfl⟩ := List.getElem_of_mem hx
    obtain ⟨j, hj, rfl⟩ := List.getElem_of_mem hy
    have hi' : i < ys.length := h.length_eq ▸ hi
    have hj' : j < ys.length := h.length_eq ▸ hj
    simp only [hplace i hi, hplace j hj, List.getElem?_eq_getElem hi', List.getElem?_eq_getElem hj',
      Option.getD_some] at heq
    have hsame := (h.getElem?_eq_iff i hi j hj).mpr (by
      rw [List.getElem?_eq_getElem hi', List.getElem?_eq_getElem hj', heq])
    rwa [List.getElem?_eq_getElem hi, List.getElem?_eq_getElem hj, Option.some_inj] at hsame

theorem SamePattern.exists_perm [DecidableEq α] [Inhabited α] [Infinite α] {xs ys : List α}
    (h : SamePattern xs ys) : ∃ ρ : Equiv.Perm α, ys = xs.map ρ := by
  obtain ⟨f, rfl, hf⟩ := h.exists_injOn
  have hfinite : Cardinal.mk {x | x ∈ xs} < Cardinal.mk α :=
    (Cardinal.lt_aleph0_iff_set_finite.mpr xs.finite_toSet).trans_le (Cardinal.aleph0_le_mk α)
  obtain ⟨ρ, hρ⟩ := Cardinal.extend_function_of_lt
    ⟨fun x : {x | x ∈ xs} => f x, fun x y heq => Subtype.ext (hf x.2 y.2 heq)⟩ hfinite
    ⟨Equiv.refl α⟩
  exact ⟨ρ, List.map_congr_left fun x hx => (hρ ⟨x, hx⟩).symm⟩

end VisitGraph
