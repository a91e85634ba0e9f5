import VisitGraph.Proofs.Text.Words

/-! # Reading the table of targets

Each node has two lines: its id, and its targets with the probabilities of going there. A space
follows every one of these words, so that the last word of the second line is empty. -/

namespace VisitGraph.Printout

open Text

/-- A node with its targets and the probabilities as they are written. -/
abbrev Row : Type :=
  String × List (String × String)

/-- The target of a transition and its written probability. -/
def labelled (t : Transition) : Except Fault (String × String) := do
  return (t.target, ← t.probability.shareText)

/-- The row of a node with the transitions that leave it. -/
def rowOf (entry : String × List Transition) : Except Fault Row := do
  return (entry.1, ← entry.2.mapM labelled)

/-- The rows of a table of transitions. -/
def rowsOf (transitions : Roster String (List Transition)) : Except Fault (List Row) :=
  transitions.entries.mapM rowOf

/-- Reads the words of a line of targets. -/
def readTargets? : List String → Option (List (String × String))
  | [""] => some []
  | target :: label :: rest => (readTargets? rest).map ((target, label) :: ·)
  | _ => none

/-- Reads the lines of a table, two for each row. -/
def readRows? : List String → Option (List Row)
  | [] => some []
  | source :: line :: rest => do
    return (source, ← readTargets? (wordsOf line)) :: (← readRows? rest)
  | [_] => none

/-- Reads a table. -/
def readAdjacency? (text : String) : Option (List Row) :=
  readRows? (linesOf text)

/-! ## The lines of a row -/

/-- The words of a line of targets. -/
def targetWords (targets : List (String × String)) : List String :=
  (targets.flatMap fun (target, label) => [target, label]) ++ [""]

/-- The two lines of a row. -/
def rowLines (row : Row) : List String :=
  [row.1, " ".intercalate (targetWords row.2)]

/-- A row of single words. -/
structure Worded (row : Row) : Prop where
  source : Solid row.1
  targets : ∀ target ∈ row.2, Solid target.1 ∧ Solid target.2

theorem mapM_of_comm {α β β' : Type} {f : α → Except Fault β} {f' : α → Except Fault β'}
    {h : β → β'} (hcomm : ∀ x, f' x = (f x).map h) (xs : List α) :
    xs.mapM f' = (xs.mapM f).map (List.map h) := by
  have hmapM := mapM_map_of_comm (g := id) hcomm xs
  rwa [List.map_id] at hmapM

theorem targetWords_cons (target label : String) (targets : List (String × String)) :
    targetWords ((target, label) :: targets) = target :: label :: targetWords targets := rfl

theorem targetWords_ne_nil (targets : List (String × String)) : targetWords targets ≠ [] := by
  simp [targetWords]

theorem targetText_eq (t : Transition) :
    targetText t = (labelled t).map fun (target, label) => target ++ " " ++ label ++ " " := by
  rw [targetText, labelled]
  cases t.probability.shareText <;> rfl

theorem join_eq_intercalate (targets : List (String × String)) :
    String.join (targets.map fun (target, label) => target ++ " " ++ label ++ " ") =
      " ".intercalate (targetWords targets) := by
  induction targets with
  | nil => rfl
  | cons target targets ih =>
      obtain ⟨target, label⟩ := target
      rw [List.map_cons, String.join_cons, ih, targetWords_cons, String.intercalate_cons_cons,
        String.intercalate_cons_of_ne_nil (targetWords_ne_nil targets)]
      simp only [String.append_assoc]

theorem targetsLine_eq (ts : List Transition) :
    targetsLine ts = (ts.mapM labelled).map fun targets =>
      " ".intercalate (targetWords targets) := by
  rw [targetsLine, mapM_of_comm targetText_eq]
  cases ts.mapM labelled with
  | error fault => rfl
  | ok targets => exact congrArg Except.ok (join_eq_intercalate targets)

theorem adjacency_eq (transitions : Roster String (List Transition)) :
    adjacency transitions = (rowsOf transitions).map fun rows =>
      ofLines (rows.flatMap rowLines) := by
  have hrow : ∀ entry : String × List Transition,
      (do return [entry.1, ← targetsLine entry.2] : Except Fault (List String)) =
        (rowOf entry).map rowLines := by
    intro entry
    rw [targetsLine_eq, rowOf]
    cases entry.2.mapM labelled <;> rfl
  rw [adjacency, mapM_of_comm hrow, rowsOf]
  cases transitions.entries.mapM rowOf with
  | error fault => rfl
  | ok rows =>
      simp only [Except.map, List.flatMap_def]
      rfl

/-! ## The table read back -/

theorem readTargets?_targetWords (targets : List (String × String)) :
    readTargets? (targetWords targets) = some targets := by
  induction targets with
  | nil => rfl
  | cons target targets ih =>
      obtain ⟨target, label⟩ := target
      rw [targetWords_cons, readTargets?, ih]
      rfl

theorem Worded.solid_targetWords {row : Row} (h : Worded row) :
    ∀ w ∈ targetWords row.2, Solid w := by
  refine List.forall_mem_append.mpr ⟨?_, by decide⟩
  intro w hw
  obtain ⟨⟨target, label⟩, hmem, hw⟩ := List.mem_flatMap.mp hw
  obtain ⟨htarget, hlabel⟩ := h.targets _ hmem
  rcases List.mem_cons.mp hw with rfl | hw
  · exact htarget
  · rwa [List.mem_singleton.mp hw]

theorem Worded.wordsOf_targets {row : Row} (h : Worded row) :
    wordsOf (" ".intercalate (targetWords row.2)) = targetWords row.2 :=
  wordsOf_intercalate h.solid_targetWords (targetWords_ne_nil row.2)

variable {rows : List Row}

theorem unbroken_rowLines (h : ∀ row ∈ rows, Worded row) :
    ∀ line ∈ rows.flatMap rowLines, Unbroken line := by
  intro line hline
  obtain ⟨row, hrow, hline⟩ := List.mem_flatMap.mp hline
  rcases List.mem_cons.mp hline with rfl | hline
  · exact (h row hrow).source.unbroken
  · rw [List.mem_singleton.mp hline]
    exact unbroken_intercalate (h row hrow).solid_targetWords

theorem readRows?_rowLines (h : ∀ row ∈ rows, Worded row) :
    readRows? (rows.flatMap rowLines) = some rows := by
  induction rows with
  | nil => rfl
  | cons row rows ih =>
      obtain ⟨hrow, hrows⟩ := List.forall_mem_cons.mp h
      rw [List.flatMap_cons, rowLines, List.cons_append, List.singleton_append, readRows?,
        hrow.wordsOf_targets, readTargets?_targetWords, ih hrows]
      rfl

theorem readAdjacency?_ofLines (h : ∀ row ∈ rows, Worded row) :
    readAdjacency? (ofLines (rows.flatMap rowLines)) = some rows := by
  rw [readAdjacency?, linesOf_ofLines (unbroken_rowLines h), readRows?_rowLines h]

theorem length_rowLines (rows : List Row) : (rows.flatMap rowLines).length = 2 * rows.length := by
  simp [List.length_flatMap, rowLines, Nat.mul_comm]

end VisitGraph.Printout
