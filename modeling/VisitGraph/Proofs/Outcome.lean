import Mathlib.Data.List.Forall2

/-! # Outcomes of steps

A sequence of steps that can fail succeeds exactly if each of them does, and fails as the first one
that does not. A step that changes a state leaves it to the next one. -/

namespace VisitGraph

variable {ε α β : Type}

theorem bind_eq_ok {x : Except ε α} {f : α → Except ε β} {b : β} :
    (x >>= f) = .ok b ↔ ∃ a, x = .ok a ∧ f a = .ok b := by
  cases x with
  | error e => simp [bind, Except.bind]
  | ok a => simp [bind, Except.bind]

theorem pure_eq_ok {a b : α} : (pure a : Except ε α) = .ok b ↔ a = b := by
  simp [pure, Except.pure]

theorem throw_ne_ok {e : ε} {a : α} : (throw e : Except ε α) ≠ .ok a := by
  simp [throw, throwThe, MonadExceptOf.throw]

theorem map_eq_ok {x : Except ε α} {f : α → β} {b : β} :
    x.map f = .ok b ↔ ∃ a, x = .ok a ∧ f a = b := by
  cases x <;> simp [Except.map]

theorem exists_rel_of_mem {R : α → β → Prop} {xs : List α} {ys : List β}
    (h : List.Forall₂ R xs ys) {x : α} (hx : x ∈ xs) : ∃ y ∈ ys, R x y := by
  induction h with
  | nil => cases hx
  | @cons x' y xs ys hxy _ ih =>
      rcases List.mem_cons.mp hx with rfl | hx
      · exact ⟨y, List.mem_cons_self, hxy⟩
      · obtain ⟨y', hy', hrel⟩ := ih hx
        exact ⟨y', List.mem_cons_of_mem y hy', hrel⟩

theorem mapM_eq_ok {f : α → Except ε β} {xs : List α} {ys : List β} :
    xs.mapM f = .ok ys ↔ List.Forall₂ (fun x y => f x = .ok y) xs ys := by
  induction xs generalizing ys with
  | nil => cases ys <;> simp [pure_eq_ok]
  | cons x xs ih =>
      simp only [List.mapM_cons, bind_eq_ok, ih, pure_eq_ok]
      cases ys with
      | nil => simp
      | cons y ys => simp [and_comm]

theorem mapM_eq_ok_map {f : α → Except ε β} {g : α → β} {xs : List α}
    (h : ∀ x ∈ xs, f x = .ok (g x)) : xs.mapM f = .ok (xs.map g) := by
  rw [mapM_eq_ok, List.forall₂_map_right_iff, List.forall₂_same]
  exact h

/-- The step gives a result. -/
def Succeeds (x : Except ε α) : Prop :=
  ∃ a, x = .ok a

theorem Succeeds.bind {x : Except ε α} {f : α → Except ε β} (hx : Succeeds x)
    (hf : ∀ a, Succeeds (f a)) : Succeeds (x >>= f) := by
  obtain ⟨a, rfl⟩ := hx
  exact hf a

theorem Succeeds.mapM {f : α → Except ε β} {xs : List α} (h : ∀ x ∈ xs, Succeeds (f x)) :
    Succeeds (xs.mapM f) := by
  induction xs with
  | nil => exact ⟨[], rfl⟩
  | cons x xs ih =>
      obtain ⟨hx, hxs⟩ := List.forall_mem_cons.mp h
      rw [List.mapM_cons]
      exact hx.bind fun y => (ih hxs).bind fun ys => ⟨y :: ys, rfl⟩

/-- A step that treats renamed things alike gives renamed results, and fails alike. -/
theorem mapM_map_of_comm {α' β' : Type} {f : α → Except ε β} {f' : α' → Except ε β'} {g : α → α'}
    {h : β → β'} (hcomm : ∀ x, f' (g x) = (f x).map h) (xs : List α) :
    (xs.map g).mapM f' = (xs.mapM f).map (List.map h) := by
  induction xs with
  | nil => rfl
  | cons x xs ih =>
      rw [List.map_cons, List.mapM_cons, List.mapM_cons, hcomm, ih]
      cases f x with
      | error e => rfl
      | ok y => cases xs.mapM f <;> rfl

theorem bind_eq_error {x : Except ε α} {f : α → Except ε β} {e : ε} :
    (x >>= f) = .error e ↔ x = .error e ∨ ∃ a, x = .ok a ∧ f a = .error e := by
  cases x with
  | error e => simp [bind, Except.bind]
  | ok a => simp [bind, Except.bind]

theorem pure_ne_error {a : α} {e : ε} : (pure a : Except ε α) ≠ .error e := by
  simp [pure, Except.pure]

/-- The first of some things that has a defect has this one. -/
def FirstDefect (defect : α → ε → Prop) (xs : List α) (e : ε) : Prop :=
  ∃ before x after, xs = before ++ x :: after ∧ (∀ y ∈ before, ∀ e', ¬ defect y e') ∧ defect x e

theorem firstDefect_cons {defect : α → ε → Prop} {x : α} {xs : List α} {e : ε} :
    FirstDefect defect (x :: xs) e ↔
      defect x e ∨ (∀ e', ¬ defect x e') ∧ FirstDefect defect xs e := by
  constructor
  · rintro ⟨before, y, after, hxs, hbefore, hy⟩
    cases before with
    | nil =>
        obtain ⟨rfl, rfl⟩ := List.cons.inj hxs
        exact .inl hy
    | cons b before =>
        obtain ⟨rfl, rfl⟩ := List.cons.inj hxs
        obtain ⟨hx, hrest⟩ := List.forall_mem_cons.mp hbefore
        exact .inr ⟨hx, before, y, after, rfl, hrest, hy⟩
  · rintro (hx | ⟨hx, before, y, after, rfl, hbefore, hy⟩)
    · exact ⟨[], x, xs, rfl, by simp, hx⟩
    · exact ⟨x :: before, y, after, rfl, List.forall_mem_cons.mpr ⟨hx, hbefore⟩, hy⟩

theorem exists_firstDefect_iff {defect : α → ε → Prop} {xs : List α} :
    (∃ e, FirstDefect defect xs e) ↔ ∃ x ∈ xs, ∃ e, defect x e := by
  induction xs with
  | nil => simp [FirstDefect]
  | cons x xs ih =>
      simp only [firstDefect_cons, List.exists_mem_cons_iff, ← ih]
      by_cases hx : ∃ e, defect x e
      · obtain ⟨e, he⟩ := hx
        exact ⟨fun _ => .inl ⟨e, he⟩, fun _ => ⟨e, .inl he⟩⟩
      · have hnone : ∀ e, ¬ defect x e := fun e he => hx ⟨e, he⟩
        simp [hnone]

theorem firstDefect_map {γ : Type} {f : γ → α} {defect : α → ε → Prop} {xs : List γ} {e : ε} :
    FirstDefect defect (xs.map f) e ↔ FirstDefect (fun x => defect (f x)) xs e := by
  induction xs with
  | nil => simp [FirstDefect]
  | cons x xs ih => rw [List.map_cons, firstDefect_cons, firstDefect_cons, ih]

theorem mapM_eq_error {f : α → Except ε β} {xs : List α} {e : ε} :
    xs.mapM f = .error e ↔ FirstDefect (fun x e => f x = .error e) xs e := by
  induction xs with
  | nil => simp [FirstDefect, pure_ne_error]
  | cons x xs ih =>
      rw [firstDefect_cons, List.mapM_cons, bind_eq_error]
      cases hx : f x with
      | error e' => simp
      | ok b =>
          simp only [reduceCtorEq, false_or, Except.ok.injEq, exists_eq_left', bind_eq_error,
            pure_ne_error, and_false, exists_false, or_false, ih, not_false_eq_true, implies_true,
            true_and]

/-! ## Steps that change a state -/

/-- What comes after a step starts from the state that the step leaves. -/
theorem run_bind_of_run {σ α β : Type} {x : StateM σ α} {f : α → StateM σ β} {s s' : σ} {a : α}
    (h : x.run s = (a, s')) : (x >>= f).run s = (f a).run s' := by
  rw [StateT.run_bind, h]
  rfl

end VisitGraph
