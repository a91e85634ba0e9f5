import VisitGraph.Disk

/-! # One program in two places

A program that asks a disk is written once for all places that keep files. A relation between two
places that relates every request to itself, and programs put together from related ones, relates
the program to itself: what it does in the one place, it does in the other. -/

namespace VisitGraph

/-! ## Making folders level by level

The definition takes the outcome apart together with the number of levels, so that its equations
have to be proved outcome by outcome. -/

namespace Disk

variable {m : Type → Type} [Monad m] [Disk m]

theorem makeFoldersUpTo_zero (r : Route) :
    (makeFoldersUpTo 0 r : m (Except Blockage Unit)) = (do
      match ← makeFolder r with
      | .error .missing => return .error ⟨.missing, r⟩
      | outcome => settle r outcome) := by
  delta makeFoldersUpTo
  change (makeFolder r : m _) >>= _ = makeFolder r >>= _
  congr 1
  funext outcome
  rcases outcome with obstacle | _
  · cases obstacle <;> rfl
  · rfl

theorem makeFoldersUpTo_succ (levels : Nat) (r : Route) :
    (makeFoldersUpTo (levels + 1) r : m (Except Blockage Unit)) = (do
      match ← makeFolder r with
      | .error .missing =>
        match ← makeFoldersUpTo levels r.parent with
        | .ok () => settle r (← makeFolder r)
        | .error blockage => return .error blockage
      | outcome => settle r outcome) := by
  delta makeFoldersUpTo
  change (makeFolder r : m _) >>= _ = makeFolder r >>= _
  congr 1
  funext outcome
  rcases outcome with obstacle | _
  · cases obstacle <;> rfl
  · rfl

end Disk

/-- A relation between the programs of two places, kept when programs are put together, in which
looking and making a folder are related to themselves. -/
structure FolderSimulation (m n : Type → Type) [Monad m] [Monad n] [Disk m] [Disk n] where
  Rel : ∀ {α : Type}, m α → n α → Prop
  ofPure : ∀ {α : Type} (a : α), Rel (pure a) (pure a)
  ofBind : ∀ {α β : Type} {p : m α} {q : n α} {f : α → m β} {g : α → n β},
    Rel p q → (∀ a, Rel (f a) (g a)) → Rel (p >>= f) (q >>= g)
  kind : ∀ r, Rel (Disk.kind r) (Disk.kind r)
  makeFolder : ∀ r, Rel (Disk.makeFolder r) (Disk.makeFolder r)

/-- Every request is related to itself. -/
structure Simulation (m n : Type → Type) [Monad m] [Monad n] [Disk m] [Disk n] extends
    FolderSimulation m n where
  read : ∀ r, Rel (Disk.read r) (Disk.read r)
  clear : ∀ r, Rel (Disk.clear r) (Disk.clear r)
  fill : ∀ r content, Rel (Disk.fill r content) (Disk.fill r content)

section

variable {m n : Type → Type} [Monad m] [Monad n] [Disk m] [Disk n]

namespace FolderSimulation

variable (S : FolderSimulation m n)

theorem present (r : Route) : S.Rel (Disk.present r) (Disk.present r) := by
  refine S.ofBind (S.kind r) ?_
  rintro (obstacle | kind)
  · cases obstacle <;> exact S.ofPure _
  · exact S.ofPure _

theorem settle (r : Route) (outcome : Except Obstacle Unit) :
    S.Rel (Disk.settle r outcome) (Disk.settle r outcome) := by
  cases outcome with
  | ok => exact S.ofPure _
  | error obstacle =>
      refine S.ofBind (S.ofBind (S.kind r) fun kind => S.ofPure _) fun folder => ?_
      cases folder <;> exact S.ofPure _

theorem makeFoldersUpTo (levels : Nat) (r : Route) :
    S.Rel (Disk.makeFoldersUpTo levels r) (Disk.makeFoldersUpTo levels r) := by
  induction levels generalizing r with
  | zero =>
      rw [Disk.makeFoldersUpTo_zero, Disk.makeFoldersUpTo_zero]
      refine S.ofBind (S.makeFolder r) ?_
      rintro (obstacle | _)
      · cases obstacle
        · exact S.ofPure _
        all_goals exact S.settle r _
      · exact S.ofPure _
  | succ levels ih =>
      rw [Disk.makeFoldersUpTo_succ, Disk.makeFoldersUpTo_succ]
      refine S.ofBind (S.makeFolder r) ?_
      rintro (obstacle | _)
      · cases obstacle
        · refine S.ofBind (ih r.parent) ?_
          rintro (blockage | _)
          · exact S.ofPure _
          · exact S.ofBind (S.makeFolder r) (S.settle r)
        all_goals exact S.settle r _
      · exact S.ofPure _

end FolderSimulation

theorem Simulation.writeText (S : Simulation m n) (r : Route) (text : String) :
    S.Rel (Disk.writeText r text) (Disk.writeText r text) := by
  refine S.ofBind (S.makeFoldersUpTo _ r.parent) ?_
  rintro (blockage | _)
  · exact S.ofPure _
  · refine S.ofBind (S.clear r) ?_
    rintro (obstacle | _)
    · exact S.ofPure _
    · refine S.ofBind (S.fill r _) ?_
      rintro (obstacle | _) <;> exact S.ofPure _

end

end VisitGraph
