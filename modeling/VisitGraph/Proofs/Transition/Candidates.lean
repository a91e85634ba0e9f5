import Mathlib.Data.List.Basic
import Mathlib.Order.Lattice
import VisitGraph.Transition

/-! # Candidates for the emphasis

The emphasis of a transition is defined count by count. It can also be found for all of them at
once: every transition has a list of candidates, to which the only transition is added, or all, or
the first with the greatest and the first with the least count if there is no other. -/

namespace VisitGraph.Emphasis

/-- Adds a candidate at the first place of an extreme count, unless there is another one. -/
def markSingle (counts : List Int) (extreme : Int) (mark : Emphasis)
    (marks : List (List Emphasis)) : List (List Emphasis) :=
  if counts.count extreme = 1 then marks.modify (counts.idxOf extreme) (· ++ [mark]) else marks

/-- The candidates before counts are compared. -/
def alone (counts : List Int) : List (List Emphasis) :=
  let blank := counts.map fun _ => []
  if counts.length = 1 then blank.modify 0 (· ++ [sole]) else blank

/-- The candidates at all places. -/
def candidates : List Int → List (List Emphasis)
  | [] => []
  | first :: rest =>
    let counts := first :: rest
    if counts.all (· = first) then (alone counts).map (· ++ [uniform])
    else
      markSingle counts (rest.foldl min first) disfavoured
        (markSingle counts (rest.foldl max first) favoured (alone counts))

/-- The first place of something that is there once is its only place. -/
theorem idxOf_eq_iff {counts : List Int} {count : Int} (h : counts.count count = 1) {i : Nat}
    (hi : i < counts.length) : counts.idxOf count = i ↔ counts[i] = count := by
  induction counts generalizing i with
  | nil => cases hi
  | cons c counts ih =>
      rw [List.count_cons] at h
      rw [List.idxOf_cons]
      by_cases hc : c = count
      · subst hc
        have hnone : c ∉ counts := by
          rw [beq_self_eq_true, if_pos rfl] at h
          exact List.count_eq_zero.mp (Nat.succ.inj h)
        cases i with
        | zero => simp
        | succ i =>
            have hmem := List.getElem_mem (Nat.lt_of_succ_lt_succ hi)
            simpa using (ne_of_mem_of_not_mem hmem hnone)
      · have hbeq : (c == count) = false := beq_eq_false_iff_ne.mpr hc
        rw [hbeq] at h ⊢
        cases i with
        | zero => simpa using hc
        | succ i => simpa using ih (by simpa using h) (Nat.lt_of_succ_lt_succ hi)

@[simp] theorem length_markSingle (counts : List Int) (extreme : Int) (mark : Emphasis)
    (marks : List (List Emphasis)) :
    (markSingle counts extreme mark marks).length = marks.length := by
  rw [markSingle]
  split_ifs
  · exact List.length_modify _ _ _
  · rfl

theorem getElem_markSingle {counts : List Int} {extreme : Int} {mark : Emphasis}
    {marks : List (List Emphasis)} {i : Nat} (hi : i < counts.length) (hmarks : i < marks.length)
    (hmarked : i < (markSingle counts extreme mark marks).length) :
    (markSingle counts extreme mark marks)[i] =
      marks[i] ++ if counts.count counts[i] = 1 ∧ counts[i] = extreme then [mark] else [] := by
  by_cases h : counts.count extreme = 1
  · simp only [markSingle, if_pos h, List.getElem_modify, idxOf_eq_iff h hi]
    by_cases heq : counts[i] = extreme
    · simp [heq, h]
    · simp [heq]
  · have hne : ¬ (counts.count counts[i] = 1 ∧ counts[i] = extreme) := by
      rintro ⟨hcount, rfl⟩
      exact h hcount
    simp only [markSingle, if_neg h, if_neg hne, List.append_nil]

theorem foldl_max_eq_iff {first : Int} {rest : List Int} {count : Int}
    (h : count ∈ first :: rest) :
    count = rest.foldl max first ↔ ∀ c ∈ first :: rest, c ≤ count := by
  have hmax : (first :: rest).max? = some count ↔ _ := List.max?_eq_some_iff
  rw [List.max?_cons', Option.some.injEq] at hmax
  rw [eq_comm, hmax, and_iff_right h]

theorem foldl_min_eq_iff {first : Int} {rest : List Int} {count : Int}
    (h : count ∈ first :: rest) :
    count = rest.foldl min first ↔ ∀ c ∈ first :: rest, count ≤ c := by
  have hmin : (first :: rest).min? = some count ↔ _ := List.min?_eq_some_iff
  rw [List.min?_cons', Option.some.injEq] at hmin
  rw [eq_comm, hmin, and_iff_right h]

@[simp] theorem length_alone (counts : List Int) : (alone counts).length = counts.length := by
  simp only [alone]
  split_ifs <;> simp

theorem getElem_alone {counts : List Int} {i : Nat} (hi : i < (alone counts).length) :
    (alone counts)[i] = if counts.length = 1 then [sole] else [] := by
  rw [length_alone] at hi
  by_cases h : counts.length = 1
  · have hzero : i = 0 := by omega
    simp [alone, h, hzero]
  · simp [alone, h]

theorem length_candidates (counts : List Int) : (candidates counts).length = counts.length := by
  cases counts with
  | nil => rfl
  | cons first rest =>
      simp only [candidates]
      split_ifs <;> simp

theorem all_eq_first_iff {first : Int} {rest : List Int} {count : Int}
    (h : count ∈ first :: rest) :
    (first :: rest).all (· = first) = true ↔ (first :: rest).all (· = count) = true := by
  simp only [List.all_eq_true, decide_eq_true_eq]
  constructor
  · intro heven c hc
    rw [heven c hc, heven count h]
  · intro heven c hc
    rw [heven c hc, heven first List.mem_cons_self]

/-- What applies to a count that differs from another one. -/
theorem applying_of_not_all {first : Int} {rest : List Int} {count : Int}
    (h : count ∈ first :: rest) (huneven : ¬ (first :: rest).all (· = count) = true) :
    applying (first :: rest) count =
      ((if (first :: rest).length = 1 then [sole] else []) ++
        if (first :: rest).count count = 1 ∧ count = rest.foldl max first then [favoured]
        else []) ++
        if (first :: rest).count count = 1 ∧ count = rest.foldl min first then [disfavoured]
        else [] := by
  have hmax : (first :: rest).all (· ≤ count) = true ↔ count = rest.foldl max first := by
    rw [foldl_max_eq_iff h]
    simp only [List.all_eq_true, decide_eq_true_eq]
  have hmin : (first :: rest).all (count ≤ ·) = true ↔ count = rest.foldl min first := by
    rw [foldl_min_eq_iff h]
    simp only [List.all_eq_true, decide_eq_true_eq]
  have hboth : ¬ (count = rest.foldl max first ∧ count = rest.foldl min first) := by
    rintro ⟨hgreatest, hleast⟩
    refine huneven (List.all_eq_true.mpr fun c hc => decide_eq_true ?_)
    exact le_antisymm ((foldl_max_eq_iff h).mp hgreatest c hc)
      ((foldl_min_eq_iff h).mp hleast c hc)
  rw [applying, if_neg huneven, List.append_assoc]
  simp only [hmax, hmin]
  grind

/-- The candidates at a place are what applies to the count there. -/
theorem candidates_eq (counts : List Int) : candidates counts = counts.map (applying counts) := by
  refine List.ext_getElem (by rw [length_candidates, List.length_map]) fun i hi hi' => ?_
  cases counts with
  | nil => cases hi'
  | cons first rest =>
      rw [List.length_map] at hi'
      have hmem : (first :: rest)[i] ∈ first :: rest := List.getElem_mem hi'
      rw [List.getElem_map]
      have halone : i < (alone (first :: rest)).length := by rwa [length_alone]
      by_cases h : (first :: rest).all (· = first) = true
      · simp only [candidates, if_pos h, List.getElem_map, getElem_alone halone, applying,
          if_pos ((all_eq_first_iff hmem).mp h)]
      · rw [applying_of_not_all hmem fun heven => h ((all_eq_first_iff hmem).mpr heven)]
        simp only [candidates, if_neg h]
        rw [getElem_markSingle hi' (by simpa using hi'), getElem_markSingle hi' halone,
          getElem_alone halone]

end VisitGraph.Emphasis

namespace VisitGraph.Transition

/-- Every transition gets the strongest of its candidates. -/
theorem emphasise_eq_zipWith (ts : List Transition) :
    emphasise ts = ts.zipWith (fun t marks => { t with emphasis := .strongest marks })
      (Emphasis.candidates (ts.map (·.count))) := by
  rw [Emphasis.candidates_eq, List.map_map, List.zipWith_map_right, List.zipWith_self]
  rfl

end VisitGraph.Transition
