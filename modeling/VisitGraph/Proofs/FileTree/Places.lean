import VisitGraph.FileTree
import VisitGraph.Proofs.Outcome
import VisitGraph.Proofs.Roster.Tally

/-! # Places in a tree

A route is followed from folder to folder. As long as folders stay folders it leads where it led
before, whatever else is put into the tree. -/

namespace VisitGraph.FileTree

/-- The content of the file at a place, if there is a file. -/
def file? (t : FileTree) (place : List String) : Option (List UInt8) :=
  match t.item? place with
  | some (.file content) => some content
  | _ => none

/-- The other tree has the same folders at least, and relative routes lead from the same place. -/
structure Extends (t t' : FileTree) : Prop where
  here : t'.here = t.here
  folder : ∀ place, t.item? place = some .folder → t'.item? place = some .folder

variable {t t' : FileTree} {place : List String}

/-- The root is a folder, so that what is no folder is found among the items. -/
theorem item?_put (h : t.item? place ≠ some .folder) (i : Item) (other : List String) :
    (t.put place i).item? other = if other = place then some i else t.item? other := by
  have hroot : place ≠ [] := by
    rintro rfl
    exact h rfl
  rw [item?, item?, put, Roster.get?_put]
  by_cases hother : other = place
  · rw [hother, if_neg hroot, if_pos rfl, if_pos rfl]
  · simp only [if_neg hother]

theorem file?_put (h : t.item? place ≠ some .folder) (i : Item) (other : List String)
    (hother : other ≠ place) : (t.put place i).file? other = t.file? other := by
  rw [file?, file?, item?_put h, if_neg hother]

theorem extends_put (h : t.item? place ≠ some .folder) (i : Item) : Extends t (t.put place i) := by
  refine ⟨rfl, ?_⟩
  intro other hfolder
  have hother : other ≠ place := by
    rintro rfl
    exact h hfolder
  rw [item?_put h, if_neg hother, hfolder]

/-! ## Following a route -/

theorem follow_of_extends (h : Extends t t') {parts : List String} {goal : List String}
    (hfollow : t.follow place parts = .ok goal) : t'.follow place parts = .ok goal := by
  induction parts generalizing place with
  | nil => exact hfollow
  | cons part parts ih =>
      rw [follow] at hfollow ⊢
      cases hitem : t.item? place with
      | none =>
          rw [hitem] at hfollow
          cases hfollow
      | some i =>
          rw [hitem] at hfollow
          cases i with
          | file content => cases hfollow
          | folder =>
              rw [h.folder place hitem]
              dsimp only at hfollow ⊢
              split at hfollow
              · cases hfollow
              · rename_i hshort
                rw [if_neg hshort]
                exact ih hfollow

theorem locate_of_extends (h : Extends t t') {r : Route} (hlocate : t.locate r = .ok place) :
    t'.locate r = .ok place := by
  rw [locate] at hlocate ⊢
  split at hlocate
  · cases hlocate
  · rename_i hzero
    split at hlocate
    · cases hlocate
    · rename_i hlong
      rw [if_neg hzero, if_neg hlong, h.here]
      exact follow_of_extends h hlocate

/-! ## What the steps do -/

variable {r : Route} {content : List UInt8}

theorem read_eq_ok :
    t.read r = .ok content ↔
      ∃ place, t.locate r = .ok place ∧ t.item? place = some (.file content) := by
  rw [FileTree.read, bind_eq_ok]
  refine exists_congr fun place => ?_
  cases t.item? place with
  | none => simp [throw_ne_ok]
  | some i => cases i <;> simp [throw_ne_ok, pure_eq_ok]

theorem write_eq_ok :
    t.write r content = .ok t' ↔ ∃ place, t.locate r = .ok place ∧
      t.item? place ≠ some .folder ∧ t.put place (.file content) = t' := by
  rw [FileTree.write, bind_eq_ok]
  refine exists_congr fun place => ?_
  cases t.item? place with
  | none => simp [pure_eq_ok]
  | some i => cases i <;> simp [throw_ne_ok, pure_eq_ok]

theorem makeFolder_eq_ok :
    t.makeFolder r = .ok t' ↔ ∃ place, t.locate r = .ok place ∧ t.item? place = none ∧
      t.put place .folder = t' := by
  rw [FileTree.makeFolder, bind_eq_ok]
  refine exists_congr fun place => ?_
  cases t.item? place <;> simp [throw_ne_ok, pure_eq_ok]

end VisitGraph.FileTree
