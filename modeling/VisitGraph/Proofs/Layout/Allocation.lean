import VisitGraph.Proofs.Layout.Loading

/-! # Allocation of ids

The ids of a layout are defined as a list. They can also be taken from a counter, one for each entry
that has been found to be sound, so that none is taken for the entry at which loading fails. -/

namespace VisitGraph.Layout

/-- Goes through the entries with a counter for the next id and the routines that there are. -/
def loadFrom (next : Int) (routines : List Routine) :
    List Entry → Except Fault (List Routine) × Int
  | [] => (.ok routines, next)
  | e :: entries =>
    if e.start < 0 then (.error (.negativeStart e.name), next)
    else if e.length < 0 then (.error (.negativeLength e.name), next)
    else loadFrom (next + 1) (routines ++ [placed (toString next) e]) entries

theorem ids_succ (first : Int) (count : ℕ) :
    ids first (count + 1) = toString first :: ids (first + 1) count := by
  rw [ids, List.range_succ_eq_map, List.map_cons, List.map_map, ids]
  congr 1
  · simp
  · refine List.map_congr_left fun i _ => ?_
    simp only [Function.comp_apply]
    congr 1
    omega

theorem load_cons (first : Int) (e : Entry) (entries : List Entry) :
    load first (e :: entries) = (do
      let r ← routine (toString first) e
      return ⟨r :: (← load (first + 1) entries).routines⟩) := by
  simp only [load, List.length_cons, ids_succ, List.zip_cons_cons, List.mapM_cons, bind_assoc,
    pure_bind]

/-- Each round of the loop is one step of loading. -/
theorem loadFrom_fst (next : Int) (routines : List Routine) (entries : List Entry) :
    (loadFrom next routines entries).1 = (load next entries).map (routines ++ ·.routines) := by
  induction entries generalizing next routines with
  | nil => exact congrArg Except.ok (List.append_nil routines).symm
  | cons e entries ih =>
      rw [load_cons, loadFrom, routine]
      split_ifs with hstart hlength
      · rfl
      · rfl
      · rw [ih]
        cases load (next + 1) entries with
        | error fault => rfl
        | ok l => exact congrArg Except.ok (List.append_assoc _ _ _)

/-- Loading is what the loop does from the first id on. -/
theorem load_eq_loadFrom (first : Int) (entries : List Entry) :
    load first entries = (loadFrom first [] entries).1.map Layout.mk := by
  rw [loadFrom_fst]
  cases load first entries <;> rfl

/-- No number of the entry is negative. -/
def sound (e : Entry) : Bool :=
  0 ≤ e.start ∧ 0 ≤ e.length

/-- An id has been taken for each entry before the first that is not sound. -/
theorem loadFrom_snd (next : Int) (routines : List Routine) (entries : List Entry) :
    (loadFrom next routines entries).2 = next + (entries.takeWhile sound).length := by
  induction entries generalizing next routines with
  | nil => exact (Int.add_zero next).symm
  | cons e entries ih =>
      have hsound : sound e = true ↔ 0 ≤ e.start ∧ 0 ≤ e.length := decide_eq_true_iff
      rw [loadFrom]
      split_ifs with hstart hlength
      · rw [List.takeWhile_cons_of_neg (by rw [hsound]; omega)]
        exact (Int.add_zero next).symm
      · rw [List.takeWhile_cons_of_neg (by rw [hsound]; omega)]
        exact (Int.add_zero next).symm
      · rw [ih, List.takeWhile_cons_of_pos (by rw [hsound]; omega), List.length_cons]
        omega

end VisitGraph.Layout
