import Mathlib.Data.List.FinRange
import Mathlib.Data.List.OfFn
import Mathlib.Data.List.Perm.Basic
import Mathlib.Order.Fin.Basic
import VisitGraph.Transition

/-! # Emphasis of transitions

Which transitions of one source are emphasised is decided by comparing each count with the others.
The rules below say so place by place. They look at nothing but the counts, and at these in no
particular order. -/

namespace VisitGraph

/-! ## The emphasis of a count -/

namespace Emphasis

/-- The rules in order of priority. -/
theorem strongest_applying (counts : List Int) (count : Int) :
    strongest (applying counts count) =
      if counts.length = 1 then sole
      else if counts.all (· = count) then uniform
      else if counts.count count ≠ 1 then none
      else if counts.all (· ≤ count) then favoured
      else if counts.all (count ≤ ·) then disfavoured
      else none := by
  rw [applying]
  split_ifs <;> rfl

theorem applying_perm {counts counts' : List Int} (h : counts.Perm counts') (count : Int) :
    applying counts count = applying counts' count := by
  rw [applying, applying, h.length_eq, h.count_eq, h.all_eq, h.all_eq, h.all_eq]

end Emphasis

namespace Transition

variable {ts : List Transition} {i : Fin ts.length}

/-- All transitions were seen equally often. -/
def Even (ts : List Transition) : Prop :=
  ∀ t ∈ ts, ∀ u ∈ ts, t.count = u.count

/-- The transition at a place was seen more often than every other one. -/
def Leads (ts : List Transition) (i : Fin ts.length) : Prop :=
  ∀ j, j ≠ i → ts[j].count < ts[i].count

/-- The transition at a place was seen less often than every other one. -/
def Trails (ts : List Transition) (i : Fin ts.length) : Prop :=
  ∀ j, j ≠ i → ts[i].count < ts[j].count

/-- The emphasis that the rules give to the transition at a place. -/
inductive Receives (ts : List Transition) (i : Fin ts.length) : Emphasis → Prop where
  | sole (h : ts.length = 1) : Receives ts i .sole
  | uniform (h : 2 ≤ ts.length) (heven : Even ts) : Receives ts i .uniform
  | favoured (h : ¬ Even ts) (hleads : Leads ts i) : Receives ts i .favoured
  | disfavoured (h : ¬ Even ts) (htrails : Trails ts i) : Receives ts i .disfavoured
  | none (h : ¬ Even ts) (hleads : ¬ Leads ts i) (htrails : ¬ Trails ts i) : Receives ts i .none

theorem even_iff (i : Fin ts.length) :
    Even ts ↔ (ts.map (·.count)).all (· = ts[i].count) = true := by
  simp only [List.all_map, List.all_eq_true, Function.comp_apply, decide_eq_true_eq]
  constructor
  · intro h t ht
    exact h t ht _ (List.getElem_mem _)
  · intro h t ht u hu
    rw [h t ht, h u hu]

theorem even_of_length_eq_one (h : ts.length = 1) : Even ts := by
  obtain ⟨t, rfl⟩ := List.length_eq_one_iff.mp h
  simp [Even]

/-- A count that occurs once differs from the counts at all other places. -/
theorem count_eq_one_iff (i : Fin ts.length) :
    (ts.map (·.count)).count ts[i].count = 1 ↔ ∀ j, j ≠ i → ts[j].count ≠ ts[i].count := by
  have hi : i < (ts.map (·.count)).length := by simp
  have hget : (ts.map (·.count))[i.val] = ts[i].count := by simp
  rw [← hget, ← (List.getElem_cons_eraseIdx_perm hi).count_eq, List.count_cons_self,
    Nat.add_eq_right, List.count_eq_zero, List.mem_eraseIdx_iff_getElem, hget]
  simp only [List.getElem_map, List.length_map, not_exists, not_and]
  exact ⟨fun h j hj => h j j.isLt (Fin.val_ne_of_ne hj),
    fun h j hj hne => h ⟨j, hj⟩ (Fin.ne_of_val_ne hne)⟩

/-- A count that occurs once and is related to all counts is strictly related to all others. -/
theorem forall_others_iff {r s : Int → Int → Prop} (hr : ∀ c, r c c)
    (hs : ∀ c d, s c d ↔ r c d ∧ c ≠ d) (i : Fin ts.length) :
    (∀ j, j ≠ i → s ts[j].count ts[i].count) ↔
      (ts.map (·.count)).count ts[i].count = 1 ∧ ∀ t ∈ ts, r t.count ts[i].count := by
  rw [count_eq_one_iff]
  constructor
  · intro h
    refine ⟨fun j hj => ((hs _ _).mp (h j hj)).2, fun t ht => ?_⟩
    obtain ⟨j, rfl⟩ := List.get_of_mem ht
    by_cases hj : j = i
    · rw [hj]
      exact hr _
    · exact ((hs _ _).mp (h j hj)).1
  · rintro ⟨hne, hrel⟩ j hj
    exact (hs _ _).mpr ⟨hrel _ (List.getElem_mem _), hne j hj⟩

theorem leads_iff (i : Fin ts.length) :
    Leads ts i ↔ (ts.map (·.count)).count ts[i].count = 1 ∧
      (ts.map (·.count)).all (· ≤ ts[i].count) = true := by
  rw [Leads, forall_others_iff le_refl fun _ _ => lt_iff_le_and_ne]
  simp

theorem trails_iff (i : Fin ts.length) :
    Trails ts i ↔ (ts.map (·.count)).count ts[i].count = 1 ∧
      (ts.map (·.count)).all (ts[i].count ≤ ·) = true := by
  have hs : ∀ c d : Int, d < c ↔ d ≤ c ∧ c ≠ d := fun c d => by
    rw [lt_iff_le_and_ne, ne_comm]
  rw [Trails, forall_others_iff (r := fun c d => d ≤ c) le_refl hs]
  simp

/-- Where counts differ, there is more than one place, and none is both above and below the
others. -/
theorem exists_ne_of_not_even (h : ¬ Even ts) (i : Fin ts.length) : ∃ j, j ≠ i := by
  by_contra! hall
  apply h
  intro t ht u hu
  obtain ⟨j, rfl⟩ := List.get_of_mem ht
  obtain ⟨k, rfl⟩ := List.get_of_mem hu
  rw [hall j, hall k]

theorem not_trails_of_leads (h : ¬ Even ts) (hleads : Leads ts i) : ¬ Trails ts i := by
  intro htrails
  obtain ⟨j, hj⟩ := exists_ne_of_not_even h i
  exact lt_asymm (hleads j hj) (htrails j hj)

/-! ## Emphasis place by place -/

instance : Decidable (Even ts) :=
  inferInstanceAs (Decidable (∀ t ∈ ts, ∀ u ∈ ts, t.count = u.count))

instance : Decidable (Leads ts i) :=
  inferInstanceAs (Decidable (∀ j, j ≠ i → ts[j].count < ts[i].count))

instance : Decidable (Trails ts i) :=
  inferInstanceAs (Decidable (∀ j, j ≠ i → ts[i].count < ts[j].count))

/-- The emphasis of the transition at a place. -/
def emphasisAt (ts : List Transition) (i : Fin ts.length) : Emphasis :=
  .strongest (Emphasis.applying (ts.map (·.count)) ts[i].count)

theorem emphasisAt_eq (ts : List Transition) (i : Fin ts.length) :
    emphasisAt ts i =
      if ts.length = 1 then .sole
      else if Even ts then .uniform
      else if Leads ts i then .favoured
      else if Trails ts i then .disfavoured
      else .none := by
  simp only [emphasisAt, Emphasis.strongest_applying, List.length_map, even_iff i, leads_iff,
    trails_iff]
  by_cases hcount : (ts.map (·.count)).count ts[i].count = 1
  · simp only [hcount, ne_eq, not_true_eq_false, if_false, true_and]
  · simp only [hcount, ne_eq, not_false_eq_true, if_true, false_and, if_false]

theorem emphasisAt_eq_iff {mark : Emphasis} : emphasisAt ts i = mark ↔ Receives ts i mark := by
  have hpos : 0 < ts.length := Fin.pos i
  rw [emphasisAt_eq]
  constructor
  · rintro rfl
    split_ifs with hone heven hleads htrails
    · exact .sole hone
    · exact .uniform (by omega) heven
    · exact .favoured heven hleads
    · exact .disfavoured heven htrails
    · exact .none heven hleads htrails
  · have hmany : ¬ Even ts → ts.length ≠ 1 := mt even_of_length_eq_one
    rintro (hone | ⟨hlength, heven⟩ | ⟨heven, hleads⟩ | ⟨heven, htrails⟩ | ⟨heven, hleads, htrails⟩)
    · rw [if_pos hone]
    · rw [if_neg (by omega), if_pos heven]
    · rw [if_neg (hmany heven), if_neg heven, if_pos hleads]
    · have hleads : ¬ Leads ts i := fun h => not_trails_of_leads heven h htrails
      rw [if_neg (hmany heven), if_neg heven, if_neg hleads, if_pos htrails]
    · rw [if_neg (hmany heven), if_neg heven, if_neg hleads, if_neg htrails]

/-- The transition at a place with its emphasis, and otherwise as it was. -/
def emphasised (ts : List Transition) (i : Fin ts.length) : Transition :=
  { ts[i] with emphasis := emphasisAt ts i }

theorem emphasise_eq_ofFn (ts : List Transition) : emphasise ts = List.ofFn (emphasised ts) :=
  (List.ofFn_getElem_eq_map ts _).symm

theorem map_count_emphasise (ts : List Transition) :
    (emphasise ts).map (·.count) = ts.map (·.count) := by
  rw [emphasise, List.map_map]
  rfl

theorem emphasise_emphasise (ts : List Transition) : emphasise (emphasise ts) = emphasise ts := by
  rw [emphasise, map_count_emphasise]
  simp [emphasise]

/-- Rearranged transitions keep their emphasis. -/
theorem emphasise_ofFn_perm (ts : List Transition) (σ : Equiv.Perm (Fin ts.length)) :
    emphasise (List.ofFn fun i => ts[σ i]) = List.ofFn fun i => emphasised ts (σ i) := by
  have hperm : (List.ofFn fun i => ts[σ i]).Perm ts := by
    have hget := Equiv.Perm.ofFn_comp_perm σ ts.get
    rwa [List.ofFn_get] at hget
  rw [emphasise, List.map_ofFn]
  congr 1
  funext i
  simp only [Function.comp_apply, emphasised, emphasisAt,
    Emphasis.applying_perm (hperm.map (·.count))]

theorem eq_of_leads {j : Fin ts.length} (hi : Leads ts i) (hj : Leads ts j) : i = j := by
  by_contra hne
  exact lt_asymm (hi j (Ne.symm hne)) (hj i hne)

theorem eq_of_trails {j : Fin ts.length} (hi : Trails ts i) (hj : Trails ts j) : i = j := by
  by_contra hne
  exact lt_asymm (hi j (Ne.symm hne)) (hj i hne)

/-- The rules give each transition one emphasis and change nothing else. One transition at most is
favoured and one other at most disfavoured, rules that are applied again give the same, and they
follow the transitions wherever these are moved. -/
theorem emphasise_follows_rules (ts : List Transition) :
    ∃ mark : Fin ts.length → Emphasis,
      emphasise ts = List.ofFn (fun i => { ts[i] with emphasis := mark i }) ∧
      (∀ i e, mark i = e ↔ Receives ts i e) ∧
      (∀ i j, mark i = .favoured → mark j = .favoured → i = j) ∧
      (∀ i j, mark i = .disfavoured → mark j = .disfavoured → i = j) ∧
      (∀ i j, mark i = .favoured → mark j = .disfavoured → i ≠ j) ∧
      emphasise (emphasise ts) = emphasise ts ∧
      ∀ σ : Equiv.Perm (Fin ts.length),
        emphasise (List.ofFn fun i => ts[σ i]) =
          List.ofFn fun i => { ts[σ i] with emphasis := mark (σ i) } := by
  refine ⟨emphasisAt ts, emphasise_eq_ofFn ts, fun i e => emphasisAt_eq_iff, ?_, ?_, ?_,
    emphasise_emphasise ts, emphasise_ofFn_perm ts⟩
  · intro i j hi hj
    cases emphasisAt_eq_iff.mp hi with
    | favoured _ hi =>
        cases emphasisAt_eq_iff.mp hj with
        | favoured _ hj => exact eq_of_leads hi hj
  · intro i j hi hj
    cases emphasisAt_eq_iff.mp hi with
    | disfavoured _ hi =>
        cases emphasisAt_eq_iff.mp hj with
        | disfavoured _ hj => exact eq_of_trails hi hj
  · rintro i j hi hj rfl
    rw [hi] at hj
    cases hj

/-- Two transitions tie between the extremes, and the marks set before do not matter. -/
theorem emphasise_follows_rules_tie :
    let ts : List Transition := [⟨"f", "g", 2, .int 0, .sole⟩, ⟨"f", "h", 5, .int 1, .disfavoured⟩,
      ⟨"f", "f", -1, .int 0, .uniform⟩, ⟨"f", "i", 2, .int 0, .favoured⟩]
    ∃ mark : Fin ts.length → Emphasis,
      emphasise ts = List.ofFn (fun i => { ts[i] with emphasis := mark i }) ∧
      mark 0 = .none ∧ mark 1 = .favoured ∧ mark 2 = .disfavoured ∧
      (∀ j, mark j = .favoured → 1 = j) ∧ (∀ j, mark j = .disfavoured → 2 = j ∧ 1 ≠ j) := by
  intro ts
  obtain ⟨mark, hmark, hrules, hfavoured, hdisfavoured, hne, -⟩ := emphasise_follows_rules ts
  have heven : ¬ Even ts := by decide
  have hfirst : mark 0 = .none := (hrules 0 _).mpr (.none heven (by decide) (by decide))
  have hsecond : mark 1 = .favoured := (hrules 1 _).mpr (.favoured heven (by decide))
  have hthird : mark 2 = .disfavoured := (hrules 2 _).mpr (.disfavoured heven (by decide))
  exact ⟨mark, hmark, hfirst, hsecond, hthird, fun j hj => hfavoured 1 j hsecond hj,
    fun j hj => ⟨hdisfavoured 2 j hthird hj, hne 1 j hsecond hj⟩⟩

end VisitGraph.Transition
