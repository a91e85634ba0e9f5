import VisitGraph.Disk

/-! # Volumes

A volume is anything that answers what a program asks of a disk. Several routes may lead to one
file, over links or not; any request may be refused, in a way that a program reacts to or in one
that ends it; and a file that has been opened may get only a beginning of its content. A volume is
lawful if requests do to the files no more than they are made for. A tree of files and folders is
such a volume, one on which no write breaks off. -/

namespace VisitGraph

/-- The files and folders of a machine in some state, and what comes of requests. A request is
granted, or it meets an obstacle, or it fails in some other way, which ends the program. Looking
changes nothing. -/
class Volume (σ : Type) (ε : outParam Type) where
  kind : σ → Route → Except ε (Except Obstacle Disk.Kind)
  read : σ → Route → Except ε (Except Obstacle (List UInt8))
  clear : σ → Route → Except ε (Except Obstacle Unit) × σ
  fill : σ → Route → List UInt8 → Except ε (Except Obstacle Unit) × σ
  makeFolder : σ → Route → Except ε (Except Obstacle Unit) × σ

namespace Volume

variable {σ ε ι : Type}

/-- A volume as a place that keeps files and folders. -/
instance [Volume σ ε] : Disk (ExceptT ε (StateM σ)) where
  kind r := ExceptT.mk fun w => (kind w r, w)
  read r := ExceptT.mk fun w => (read w r, w)
  clear r := ExceptT.mk fun w => clear w r
  fill r content := ExceptT.mk fun w => fill w r content
  makeFolder r := ExceptT.mk fun w => makeFolder w r

/-! ## Programs -/

variable {α β : Type} {w w' : σ} {p : ExceptT ε (StateM σ) α} {f : α → ExceptT ε (StateM σ) β}

/-- What comes out of a program, and the volume after it. -/
def run (w : σ) (p : ExceptT ε (StateM σ) α) : Except ε α × σ :=
  StateT.run (ExceptT.run p) w

theorem run_bind_of_ok {a : α} (h : run w p = (.ok a, w')) : run w (p >>= f) = run w' (f a) := by
  rw [run] at h
  rw [run, ExceptT.run_bind, StateT.run_bind, h]
  rfl

theorem run_bind_of_error {e : ε} (h : run w p = (.error e, w')) :
    run w (p >>= f) = (.error e, w') := by
  rw [run] at h
  rw [run, ExceptT.run_bind, StateT.run_bind, h]
  rfl

/-- What holds of the outcome of a program and of the volume after it. -/
def Yields (w : σ) (p : ExceptT ε (StateM σ) α) (Q : Except ε α → σ → Prop) : Prop :=
  Q (run w p).1 (run w p).2

variable {Q : Except ε α → σ → Prop} {R : Except ε β → σ → Prop}

theorem Yields.exists_run (h : Yields w p Q) : ∃ x w', run w p = (x, w') ∧ Q x w' :=
  ⟨_, _, rfl, h⟩

theorem Yields.mono {Q' : Except ε α → σ → Prop} (h : Yields w p Q)
    (himp : ∀ x w', Q x w' → Q' x w') : Yields w p Q' :=
  himp _ _ h

theorem Yields.ofPure {a : α} (h : Q (.ok a) w) : Yields w (pure a) Q :=
  h

/-- The second program goes on where the first one has come to, unless that has failed. -/
theorem Yields.bind (h : Yields w p Q) (hok : ∀ a w', Q (.ok a) w' → Yields w' (f a) R)
    (herror : ∀ e w', Q (.error e) w' → R (.error e) w') : Yields w (p >>= f) R := by
  obtain ⟨x, w', hrun, hQ⟩ := h.exists_run
  cases x with
  | ok a =>
      rw [Yields, run_bind_of_ok hrun]
      exact hok a w' hQ
  | error e =>
      rw [Yields, run_bind_of_error hrun]
      exact herror e w' hQ

end Volume

/-! ## Laws -/

/-- How the files of a volume are told apart: to which file a route leads, and what a file holds. -/
structure Volume.View (σ ι : Type) where
  file? : σ → Route → Option ι
  content? : σ → ι → Option (List UInt8)

namespace Volume.View

variable {σ ε ι : Type} (view : View σ ι)

/-- Every route that led to a file leads to it still, and the files in question hold what they
held. -/
structure Keeps (w w' : σ) (kept : ι → Prop) : Prop where
  file : ∀ r i, view.file? w r = some i → view.file? w' r = some i
  content : ∀ i, kept i → view.content? w' i = view.content? w i

variable {view} in
theorem Keeps.refl {w : σ} {kept : ι → Prop} : view.Keeps w w kept :=
  ⟨fun _ _ h => h, fun _ _ => rfl⟩

/-- Requests do no more than they are made for. What is read is what the file holds. Making a folder
leaves the files alone, whatever comes of it. So does the opening of a file that is refused;
otherwise the file is empty, and the others are left alone. A file that has been opened gets its
content, or, where the request does not succeed, a beginning of it. -/
structure Lawful [Volume σ ε] : Prop where
  read : ∀ w r content, read w r = .ok (.ok content) → ∃ i,
    view.file? w r = some i ∧ view.content? w i = some content
  makeFolder : ∀ w r, view.Keeps w (makeFolder w r).2 fun _ => True
  clear_refused : ∀ w r, (clear w r).1 ≠ .ok (.ok ()) → view.Keeps w (clear w r).2 fun _ => True
  clear_granted : ∀ w r, (clear w r).1 = .ok (.ok ()) → ∃ i,
    view.file? (clear w r).2 r = some i ∧ view.content? (clear w r).2 i = some [] ∧
      view.Keeps w (clear w r).2 (· ≠ i)
  fill : ∀ w r content i, view.file? w r = some i → view.Keeps w (fill w r content).2 (· ≠ i) ∧
    ∃ part, view.content? (fill w r content).2 i = some part ∧ part <+: content ∧
      ((fill w r content).1 = .ok (.ok ()) → part = content)

/-- A file that has been opened always gets all of its content. -/
def Steady [Volume σ ε] : Prop :=
  ∀ w r content i, view.file? w r = some i → (Volume.fill w r content).1 = .ok (.ok ())

end Volume.View

end VisitGraph
