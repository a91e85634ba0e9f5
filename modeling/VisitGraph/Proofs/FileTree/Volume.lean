import VisitGraph.Proofs.Disk.Simulation
import VisitGraph.Proofs.Disk.Volume
import VisitGraph.Proofs.FileTree.Places

/-! # Trees as volumes

A tree of files and folders is a lawful volume on which no write breaks off. With a limit to the
size of files it is one on which some do. -/

namespace VisitGraph

namespace FileTree

open Volume

/-- A tree as a volume, on which there is nothing but the obstacles that a program reacts to. -/
instance : Volume FileTree Empty where
  kind t r := .ok (t.kind r)
  read t r := .ok (t.read r)
  clear t r := (.ok (change (·.write r []) t).1, (change (·.write r []) t).2)
  fill t r content := (.ok (change (·.write r content) t).1, (change (·.write r content) t).2)
  makeFolder t r := (.ok (change (·.makeFolder r) t).1, (change (·.makeFolder r) t).2)

/-- A program does with a tree as a volume what it does with the tree. -/
def simulation : Simulation (StateM FileTree) (ExceptT Empty (StateM FileTree)) where
  Rel p q := ∀ t, Volume.run t q = (.ok (p.run t).1, (p.run t).2)
  ofPure a t := rfl
  ofBind hpq hfg t := by
    rw [Volume.run_bind_of_ok (hpq t), hfg]
    rfl
  kind r t := rfl
  read r t := rfl
  clear r t := rfl
  fill r content t := rfl
  makeFolder r t := rfl

/-- On a tree every program comes to its end. -/
theorem exists_run_of_rel {α : Type} {p : StateM FileTree α}
    {q : ExceptT Empty (StateM FileTree) α} (h : simulation.Rel p q) {t t' : FileTree}
    {result : Except Empty α} (hrun : Volume.run t q = (result, t')) :
    ∃ a, result = .ok a ∧ p.run t = (a, t') := by
  have hp : Volume.run t q = (.ok (p.run t).1, (p.run t).2) := h t
  rw [hrun] at hp
  obtain ⟨hresult, htree⟩ := Prod.mk.inj hp
  exact ⟨(p.run t).1, hresult, Prod.ext rfl htree.symm⟩

/-- Files are told apart by their places. -/
def view : View FileTree (List String) where
  file? t r := (t.locate r).toOption.filter fun place => (t.file? place).isSome
  content? := file?

variable {t t' : FileTree} {r : Route} {place : List String} {content : List UInt8}

theorem view_file?_eq_some :
    view.file? t r = some place ↔ t.locate r = .ok place ∧ (t.file? place).isSome = true := by
  change Option.filter (fun place => (t.file? place).isSome) (t.locate r).toOption = _ ↔ _
  rw [Option.filter_eq_some_iff]
  cases t.locate r <;> simp [Except.toOption]

theorem view_keeps_of_extends {kept : List String → Prop} (h : Extends t t')
    (hisSome : ∀ place, (t.file? place).isSome = true → (t'.file? place).isSome = true)
    (hkept : ∀ place, kept place → t'.file? place = t.file? place) : view.Keeps t t' kept where
  file r place hfile := by
    obtain ⟨hlocate, hsome⟩ := view_file?_eq_some.mp hfile
    exact view_file?_eq_some.mpr ⟨locate_of_extends h hlocate, hisSome place hsome⟩
  content := hkept

theorem view_keeps_makeFolder (h : t.makeFolder r = .ok t') :
    view.Keeps t t' fun _ => True := by
  obtain ⟨place, -, hnone, rfl⟩ := makeFolder_eq_ok.mp h
  have hfree : t.item? place ≠ some .folder := by
    rw [hnone]
    exact (Option.some_ne_none _).symm
  have hkept : ∀ other, (t.put place .folder).file? other = t.file? other := by
    intro other
    by_cases hother : other = place
    · rw [hother, file?, file?, item?_put hfree, if_pos rfl, hnone]
    · exact file?_put hfree _ _ hother
  refine view_keeps_of_extends (extends_put hfree _) ?_ fun other _ => hkept other
  intro other hsome
  rwa [hkept]

theorem view_write (h : t.write r content = .ok t') : ∃ place,
    view.file? t' r = some place ∧ view.content? t' place = some content ∧
      view.Keeps t t' (· ≠ place) := by
  obtain ⟨place, hlocate, hfree, rfl⟩ := write_eq_ok.mp h
  have hextends := extends_put hfree (.file content)
  have hcontent : (t.put place (.file content)).file? place = some content := by
    rw [file?, item?_put hfree, if_pos rfl]
  refine ⟨place, view_file?_eq_some.mpr ⟨locate_of_extends hextends hlocate, ?_⟩, hcontent, ?_⟩
  · rw [hcontent]
    rfl
  · refine view_keeps_of_extends hextends ?_ fun other => file?_put hfree _ other
    intro other hsome
    by_cases hother : other = place
    · rw [hother, hcontent]
      rfl
    · rwa [file?_put hfree _ other hother]

theorem change_cases (f : FileTree → Except Obstacle FileTree) (t : FileTree) :
    (∃ t', f t = .ok t' ∧ change f t = (.ok (), t')) ∨
      ∃ obstacle, f t = .error obstacle ∧ change f t = (.error obstacle, t) := by
  rw [change]
  cases f t with
  | ok t' => exact .inl ⟨t', rfl, rfl⟩
  | error obstacle => exact .inr ⟨obstacle, rfl, rfl⟩

theorem keeps_change_makeFolder (t : FileTree) (r : Route) :
    view.Keeps t (change (·.makeFolder r) t).2 fun _ => True := by
  obtain ⟨t', hok, hchange⟩ | ⟨obstacle, -, hchange⟩ := change_cases (·.makeFolder r) t
  · rw [hchange]
    exact view_keeps_makeFolder hok
  · rw [hchange]
    exact .refl

theorem keeps_change_write (h : (change (·.write r content) t).1 ≠ .ok ()) :
    view.Keeps t (change (·.write r content) t).2 fun _ => True := by
  obtain ⟨t', -, hchange⟩ | ⟨obstacle, -, hchange⟩ := change_cases (·.write r content) t
  · rw [hchange] at h
    exact absurd rfl h
  · rw [hchange]
    exact .refl

theorem view_change_write (h : (change (·.write r content) t).1 = .ok ()) : ∃ place,
    view.file? (change (·.write r content) t).2 r = some place ∧
      view.content? (change (·.write r content) t).2 place = some content ∧
      view.Keeps t (change (·.write r content) t).2 (· ≠ place) := by
  obtain ⟨t', hok, hchange⟩ | ⟨obstacle, -, hchange⟩ := change_cases (·.write r content) t
  · rw [hchange]
    exact view_write hok
  · rw [hchange] at h
    cases h

/-- A file that is there can be written. -/
theorem change_write_of_file? (h : view.file? t r = some place) (content : List UInt8) :
    (change (·.write r content) t).1 = .ok () ∧
      view.content? (change (·.write r content) t).2 place = some content ∧
      view.Keeps t (change (·.write r content) t).2 (· ≠ place) := by
  have hgranted : (change (·.write r content) t).1 = .ok () := by
    obtain ⟨hlocate, hsome⟩ := view_file?_eq_some.mp h
    have hfree : t.item? place ≠ some .folder := by
      intro hfolder
      rw [file?, hfolder] at hsome
      cases hsome
    obtain ⟨t', -, hchange⟩ | ⟨obstacle, herror, -⟩ := change_cases (·.write r content) t
    · rw [hchange]
    · rw [write_eq_ok.mpr ⟨place, hlocate, hfree, rfl⟩] at herror
      cases herror
  obtain ⟨place', hfile, hcontent, hkeeps⟩ := view_change_write hgranted
  obtain rfl := Option.some.inj ((hkeeps.file r place h).symm.trans hfile)
  exact ⟨hgranted, hcontent, hkeeps⟩

theorem view_read (h : t.read r = .ok content) : ∃ place,
    view.file? t r = some place ∧ view.content? t place = some content := by
  obtain ⟨place, hlocate, hitem⟩ := read_eq_ok.mp h
  have hcontent : t.file? place = some content := by rw [file?, hitem]
  exact ⟨place, view_file?_eq_some.mpr ⟨hlocate, Option.isSome_of_eq_some hcontent⟩, hcontent⟩

theorem lawful_view : view.Lawful where
  read _ _ _ h := view_read (Except.ok.inj h)
  makeFolder := keeps_change_makeFolder
  clear_refused _ _ hrefused := keeps_change_write fun h => hrefused (congrArg _ h)
  clear_granted _ _ hgranted := view_change_write (Except.ok.inj hgranted)
  fill _ _ content _ hfile :=
    have ⟨_, hcontent, hkeeps⟩ := change_write_of_file? hfile content
    ⟨hkeeps, content, hcontent, List.prefix_rfl, fun _ => rfl⟩

/-- There is room for everything in a tree. -/
theorem steady_view : view.Steady :=
  fun _ _ content _ hfile => congrArg _ (change_write_of_file? hfile content).1

end FileTree

/-! ## A limit to the size of files -/

/-- A tree in which no file is given more than so many bytes. -/
structure LimitedTree where
  tree : FileTree
  limit : Nat

namespace LimitedTree

open FileTree

/-- A file whose content does not fit gets as much of it as does, and the program ends. -/
instance : Volume LimitedTree Unit where
  kind w r := .ok (w.tree.kind r)
  read w r := .ok (w.tree.read r)
  clear w r := (.ok (change (·.write r []) w.tree).1, ⟨(change (·.write r []) w.tree).2, w.limit⟩)
  fill w r content :=
    let (outcome, t) := change (·.write r (content.take w.limit)) w.tree
    (if w.limit < content.length then .error () else .ok outcome, ⟨t, w.limit⟩)
  makeFolder w r :=
    (.ok (change (·.makeFolder r) w.tree).1, ⟨(change (·.makeFolder r) w.tree).2, w.limit⟩)

/-- Files are told apart as in the tree. -/
def view : Volume.View LimitedTree (List String) where
  file? w := FileTree.view.file? w.tree
  content? w := FileTree.view.content? w.tree

theorem view_keeps {w w' : LimitedTree} {kept : List String → Prop}
    (h : FileTree.view.Keeps w.tree w'.tree kept) : view.Keeps w w' kept :=
  ⟨h.file, h.content⟩

theorem lawful_view : view.Lawful where
  read _ _ _ h := view_read (Except.ok.inj h)
  makeFolder w r := view_keeps (keeps_change_makeFolder w.tree r)
  clear_refused w r hrefused :=
    view_keeps (keeps_change_write fun h => hrefused (congrArg _ h))
  clear_granted w r hgranted :=
    have ⟨place, hfile, hcontent, hkeeps⟩ := view_change_write (Except.ok.inj hgranted)
    ⟨place, hfile, hcontent, view_keeps hkeeps⟩
  fill w r content place hfile := by
    obtain ⟨-, hcontent, hkeeps⟩ := change_write_of_file? hfile (content.take w.limit)
    refine ⟨view_keeps hkeeps, content.take w.limit, hcontent, List.take_prefix _ _, ?_⟩
    intro hgranted
    refine List.take_of_length_le (Nat.le_of_not_lt fun hlong => ?_)
    change (if w.limit < content.length then _ else _) = _ at hgranted
    rw [if_pos hlong] at hgranted
    cases hgranted

/-- Where there is a limit, writing can break off. -/
theorem not_steady_view : ¬ view.Steady := by
  intro hsteady
  cases hsteady ⟨⟨[], ⟨[(["f"], .file [])]⟩⟩, 0⟩ (.ofString "f") [0] ["f"] rfl

end LimitedTree

end VisitGraph
