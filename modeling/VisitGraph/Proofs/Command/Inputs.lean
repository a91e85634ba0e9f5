import VisitGraph.Command
import VisitGraph.Proofs.Disk.Volume

/-! # The inputs of a run

Both inputs are looked for, and then both are read, before anything is written. An input gives its
text, or it is in trouble of one of three kinds, each of which ends the run. -/

namespace VisitGraph.Command

/-! ## Steps before anything is written -/

variable {σ ε α β : Type} {w : σ}

/-- What a step gives: something good, or the end of the run. -/
inductive Step (good : α → Prop) (bad : Except ε Outcome → Prop) :
    Except ε (Except Outcome α) → Prop where
  | good {a} (h : good a) : Step good bad (.ok (.ok a))
  | stopped {outcome} (h : bad (.ok outcome)) : Step good bad (.ok (.error outcome))
  | failed {e} (h : bad (.error e)) : Step good bad (.error e)

/-- A step that leaves the volume as it is. -/
def Gives (w : σ) (p : ExceptT ε (StateM σ) (Except Outcome α)) (good : α → Prop)
    (bad : Except ε Outcome → Prop) : Prop :=
  Volume.Yields w p fun x w' => w' = w ∧ Step good bad x

variable {good : α → Prop} {bad bad' : Except ε Outcome → Prop}

theorem Gives.of_run {p : ExceptT ε (StateM σ) (Except Outcome α)}
    {x : Except ε (Except Outcome α)} (h : Volume.run w p = (x, w)) (hx : Step good bad x) :
    Gives w p good bad := by
  rw [Gives, Volume.Yields, h]
  exact ⟨rfl, hx⟩

/-- Two steps, of which the second is left out if the first one ends the run. -/
theorem Gives.bind {p : ExceptT ε (StateM σ) (Except Outcome α)}
    {f : Except Outcome α → ExceptT ε (StateM σ) (Except Outcome β)} {good' : β → Prop}
    (h : Gives w p good bad) (hbad : ∀ result, bad result → bad' result)
    (hstop : ∀ outcome, f (.error outcome) = pure (.error outcome))
    (hgood : ∀ a, good a → Gives w (f (.ok a)) good' bad') : Gives w (p >>= f) good' bad' := by
  refine Volume.Yields.bind h ?_ ?_
  · rintro x w' ⟨rfl, ha | hstopped⟩
    · exact hgood _ ha
    · rw [hstop]
      exact .ofPure ⟨rfl, .stopped (hbad _ hstopped)⟩
  · rintro e w' ⟨rfl, hstep⟩
    cases hstep with
    | failed hfailed => exact ⟨rfl, .failed (hbad _ hfailed)⟩

/-! ## What an input may be -/

variable [Volume σ ε]

/-- Nothing is found at the end of the route. -/
def Missing (w : σ) (r : Route) : Prop :=
  ∃ obstacle, Volume.kind w r = .ok (.error obstacle) ∧ obstacle ≠ .tooLong

/-- Something is found at the end of the route. -/
def Present (w : σ) (r : Route) : Prop :=
  ∃ kind, Volume.kind w r = .ok (.ok kind)

/-- It cannot be told what is at the end of the route, or no content is to be had from it. -/
def Unreadable (w : σ) (r : Route) : Prop :=
  Volume.kind w r = .ok (.error .tooLong) ∨ (∃ e, Volume.kind w r = .error e) ∨
    Present w r ∧ ∀ bytes, Volume.read w r ≠ .ok (.ok bytes)

/-- The route leads to a file that is no text. -/
def Garbled (w : σ) (r : Route) (fault : Fault) : Prop :=
  Present w r ∧ ∃ bytes, Volume.read w r = .ok (.ok bytes) ∧ textOfBytes bytes = .error fault

/-- The route leads to a file with this text. -/
def Holds (w : σ) (r : Route) (text : String) : Prop :=
  Present w r ∧ ∃ bytes, Volume.read w r = .ok (.ok bytes) ∧ textOfBytes bytes = .ok text

/-- What is wrong with an input, and how a run ends for it. -/
inductive Trouble (w : σ) (r : Route) : Except ε Outcome → Prop where
  | missing (h : Missing w r) : Trouble w r (.ok (.refused (missingMessage r)))
  | blocked {obstacle} (h : Unreadable w r) : Trouble w r (.ok (.blocked ⟨obstacle, r⟩))
  | failed {e} (h : Unreadable w r) : Trouble w r (.error e)
  | garbled {fault} (h : Garbled w r fault) : Trouble w r (.ok (.refused (faultMessage fault)))

section

variable {r : Route}

theorem Present.not_missing (h : Present w r) : ¬ Missing w r := by
  rintro ⟨obstacle, herror, -⟩
  obtain ⟨kind, hkind⟩ := h
  rw [hkind] at herror
  cases herror

theorem Missing.not_unreadable (h : Missing w r) : ¬ Unreadable w r := by
  obtain ⟨obstacle, hkind, hlong⟩ := h
  rintro (h | ⟨e, h⟩ | ⟨⟨kind, h⟩, -⟩)
  · rw [hkind] at h
    cases h
    exact hlong rfl
  · rw [hkind] at h
    cases h
  · rw [hkind] at h
    cases h

theorem Holds.not_unreadable {text : String} (h : Holds w r text) : ¬ Unreadable w r := by
  obtain ⟨⟨kind, hkind⟩, bytes, hread, -⟩ := h
  rintro (h | ⟨e, h⟩ | ⟨-, h⟩)
  · rw [hkind] at h
    cases h
  · rw [hkind] at h
    cases h
  · exact h bytes hread

theorem Holds.not_garbled {text : String} (h : Holds w r text) (fault : Fault) :
    ¬ Garbled w r fault := by
  rintro ⟨-, bytes, hread, herror⟩
  obtain ⟨-, bytes', hread', htext⟩ := h
  rw [hread] at hread'
  cases hread'
  rw [htext] at herror
  cases herror

theorem Holds.unique {text text' : String} (h : Holds w r text) (h' : Holds w r text') :
    text = text' := by
  obtain ⟨-, bytes, hread, htext⟩ := h
  obtain ⟨-, bytes', hread', htext'⟩ := h'
  rw [hread] at hread'
  cases hread'
  exact Except.ok.inj (htext.symm.trans htext')

/-- Trouble of any other kind than with reading ends in a message. -/
theorem Trouble.exists_message {result : Except ε Outcome} (h : Trouble w r result)
    (hreadable : ¬ Unreadable w r) : ∃ message, result = .ok (.refused message) := by
  rcases h with hmissing | hunreadable | hunreadable | hgarbled
  · exact ⟨_, rfl⟩
  · exact absurd hunreadable hreadable
  · exact absurd hunreadable hreadable
  · exact ⟨_, rfl⟩

theorem Trouble.not_done {result : Except ε Outcome} (h : Trouble w r result)
    (lines : List String) : result ≠ .ok (.done lines) := by
  rintro rfl
  cases h

end

/-! ## Looking for the inputs -/

theorem gives_checkInput (w : σ) (r : Route) :
    Gives w (checkInput r) (fun _ => Present w r) (Trouble w r) := by
  have hrun : Volume.run w (Disk.kind r : ExceptT ε (StateM σ) _) = (Volume.kind w r, w) := rfl
  rcases h : Volume.kind w r with e | obstacle | kind
  · rw [h] at hrun
    have hpresent : Volume.run w (Disk.present r : ExceptT ε (StateM σ) _) = (.error e, w) :=
      Volume.run_bind_of_error hrun
    exact .of_run (Volume.run_bind_of_error hpresent) (.failed (.failed (.inr (.inl ⟨e, h⟩))))
  · rw [h] at hrun
    by_cases hlong : obstacle = .tooLong
    · subst hlong
      have hpresent : Volume.run w (Disk.present r : ExceptT ε (StateM σ) _) =
          (.ok (.error .tooLong), w) := Volume.run_bind_of_ok hrun
      exact .of_run (Volume.run_bind_of_ok hpresent) (.stopped (.blocked (.inl h)))
    · have hpresent : Volume.run w (Disk.present r : ExceptT ε (StateM σ) _) =
          (.ok (.ok false), w) := by
        rw [Disk.present, Volume.run_bind_of_ok hrun]
        cases obstacle <;> first | rfl | exact absurd rfl hlong
      exact .of_run (Volume.run_bind_of_ok hpresent) (.stopped (.missing ⟨obstacle, h, hlong⟩))
  · rw [h] at hrun
    have hpresent : Volume.run w (Disk.present r : ExceptT ε (StateM σ) _) = (.ok (.ok true), w) :=
      Volume.run_bind_of_ok hrun
    exact .of_run (Volume.run_bind_of_ok hpresent) (.good ⟨kind, h⟩)

/-- Which of two inputs is in trouble does not matter. -/
def EitherTrouble (w : σ) (functions trace : Route) (result : Except ε Outcome) : Prop :=
  Trouble w functions result ∨ Trouble w trace result

theorem gives_checkInputs (w : σ) {s : Settings} {trace : Route} (htrace : s.trace? = some trace) :
    Gives w (checkInputs s) (fun found => found = trace ∧ Present w s.functions ∧ Present w trace)
      (EitherTrouble w s.functions trace) := by
  refine (gives_checkInput w s.functions).bind (fun _ => .inl) (fun _ => rfl) ?_
  rintro ⟨⟩ hfunctions
  rw [htrace]
  refine (gives_checkInput w trace).bind (fun _ => .inr) (fun _ => rfl) ?_
  rintro ⟨⟩ htraced
  exact .of_run rfl (.good ⟨rfl, hfunctions, htraced⟩)

/-- Without a trace the run ends early. -/
theorem gives_checkInputs_none (w : σ) {s : Settings} (htrace : s.trace? = none) :
    Gives w (checkInputs s) (fun _ => False) fun result =>
      result = .ok .noTrace ∧ ¬ Missing w s.functions ∨ Trouble w s.functions result := by
  refine (gives_checkInput w s.functions).bind (fun _ => .inr) (fun _ => rfl) ?_
  rintro ⟨⟩ hfunctions
  rw [htrace]
  exact .of_run rfl (.stopped (.inl ⟨rfl, hfunctions.not_missing⟩))

/-! ## Reading the inputs -/

theorem gives_readInput {r : Route} (hpresent : Present w r) :
    Gives w (readInput r) (Holds w r) (Trouble w r) := by
  have hrun : Volume.run w (Disk.read r : ExceptT ε (StateM σ) _) = (Volume.read w r, w) := rfl
  rcases h : Volume.read w r with e | obstacle | bytes
  · rw [h] at hrun
    have hwithheld : Unreadable w r := .inr (.inr ⟨hpresent, by simp [h]⟩)
    exact .of_run (Volume.run_bind_of_error hrun) (.failed (.failed hwithheld))
  · rw [h] at hrun
    have hwithheld : Unreadable w r := .inr (.inr ⟨hpresent, by simp [h]⟩)
    exact .of_run (Volume.run_bind_of_ok hrun) (.stopped (.blocked hwithheld))
  · rw [h] at hrun
    refine .of_run (Volume.run_bind_of_ok hrun) ?_
    cases htext : textOfBytes bytes with
    | error fault => exact .stopped (.garbled ⟨hpresent, bytes, h, htext⟩)
    | ok text => exact .good ⟨hpresent, bytes, h, htext⟩

theorem gives_readInputs {functions trace : Route} (hfunctions : Present w functions)
    (htrace : Present w trace) :
    Gives w (readInputs functions trace)
      (fun texts => Holds w functions texts.1 ∧ Holds w trace texts.2)
      (EitherTrouble w functions trace) := by
  refine (gives_readInput hfunctions).bind (fun _ => .inl) (fun _ => rfl) ?_
  intro listing hlisting
  refine (gives_readInput htrace).bind (fun _ => .inr) (fun _ => rfl) ?_
  intro samples hsamples
  exact .of_run rfl (.good ⟨hlisting, hsamples⟩)

end VisitGraph.Command
