import Mathlib.Data.List.Find
import VisitGraph.Proofs.Disk.Simulation
import VisitGraph.Proofs.Disk.Volume

/-! # Journals of writing

A journal is a volume together with the files that have been written on it, first to last, and the
file that has been opened but not finished. A program that keeps one does the same to the volume as
without it. What a file holds afterwards is told by the journal: the content that was last written
to it, or else the one that it had before, unless it is the one that was not finished. -/

namespace VisitGraph

/-- A volume with the files that have been written on it, each under the route that was used, and
the route of the file that has been begun. -/
structure Journal (σ : Type) where
  volume : σ
  written : List (Route × List UInt8)
  begun? : Option Route
  deriving DecidableEq, Repr

namespace Journal

variable {σ ε ι : Type}

/-- The journal in which nothing has been entered. -/
def start (w : σ) : Journal σ :=
  ⟨w, [], none⟩

/-- The journal after a request, with an entry if that was granted. -/
def after (j : Journal σ) (entry : Journal σ → Journal σ) :
    Except ε (Except Obstacle Unit) × σ → Except ε (Except Obstacle Unit) × Journal σ
  | (.ok (.ok ()), w) => (.ok (.ok ()), entry { j with volume := w })
  | (outcome, w) => (outcome, { j with volume := w })

/-- A file that has been opened is begun. -/
def enterOpened (r : Route) (j : Journal σ) : Journal σ :=
  { j with begun? := some r }

/-- A file that has its content is written. -/
def enterFilled (r : Route) (content : List UInt8) (j : Journal σ) : Journal σ :=
  { j with written := j.written ++ [(r, content)], begun? := none }

@[simp] theorem volume_enterOpened (r : Route) (j : Journal σ) :
    (j.enterOpened r).volume = j.volume :=
  rfl

@[simp] theorem volume_enterFilled (r : Route) (content : List UInt8) (j : Journal σ) :
    (j.enterFilled r content).volume = j.volume :=
  rfl

/-- The volume with a journal, in which no folders are entered. -/
instance [Volume σ ε] : Volume (Journal σ) ε where
  kind j r := Volume.kind j.volume r
  read j r := Volume.read j.volume r
  clear j r := j.after (enterOpened r) (Volume.clear j.volume r)
  fill j r content := j.after (enterFilled r content) (Volume.fill j.volume r content)
  makeFolder j r := j.after id (Volume.makeFolder j.volume r)

theorem after_of_granted {x : Except ε (Except Obstacle Unit) × σ} (h : x.1 = .ok (.ok ()))
    (j : Journal σ) (entry : Journal σ → Journal σ) :
    j.after entry x = (.ok (.ok ()), entry { j with volume := x.2 }) := by
  obtain ⟨outcome, w⟩ := x
  obtain rfl : outcome = .ok (.ok ()) := h
  rfl

theorem after_of_not_granted {x : Except ε (Except Obstacle Unit) × σ} (h : x.1 ≠ .ok (.ok ()))
    (j : Journal σ) (entry : Journal σ → Journal σ) :
    j.after entry x = (x.1, { j with volume := x.2 }) := by
  obtain ⟨outcome, w⟩ := x
  rcases outcome with e | obstacle | _
  · rfl
  · rfl
  · exact absurd rfl h

theorem volume_after {entry : Journal σ → Journal σ} (h : ∀ j, (entry j).volume = j.volume)
    (j : Journal σ) (x : Except ε (Except Obstacle Unit) × σ) :
    x = ((j.after entry x).1, (j.after entry x).2.volume) := by
  by_cases hx : x.1 = .ok (.ok ())
  · rw [after_of_granted hx, h, ← hx]
  · rw [after_of_not_granted hx]

/-- A program does the same to the volume with a journal as without. -/
def simulation [Volume σ ε] :
    Simulation (ExceptT ε (StateM σ)) (ExceptT ε (StateM (Journal σ))) where
  Rel p q := ∀ j : Journal σ,
    Volume.run j.volume p = ((Volume.run j q).1, (Volume.run j q).2.volume)
  ofPure a j := rfl
  ofBind {α β p q f g} hpq hfg j := by
    obtain ⟨outcome, j', hq⟩ : ∃ outcome j', Volume.run j q = (outcome, j') := ⟨_, _, rfl⟩
    have hp := hpq j
    rw [hq] at hp
    cases outcome with
    | ok a => rw [Volume.run_bind_of_ok hp, Volume.run_bind_of_ok hq, hfg]
    | error e => rw [Volume.run_bind_of_error hp, Volume.run_bind_of_error hq]
  kind r j := rfl
  read r j := rfl
  clear r j := volume_after (volume_enterOpened r) j (Volume.clear j.volume r)
  fill r content j := volume_after (volume_enterFilled r content) j (Volume.fill j.volume r content)
  makeFolder r j := volume_after (fun _ => rfl) j (Volume.makeFolder j.volume r)

/-! ## What the journal tells -/

section

variable (view : Volume.View σ ι)

/-- Neither these entries nor the file that has been begun are this file. -/
structure Untouched (j : Journal σ) (entries : List (Route × List UInt8)) (i : ι) : Prop where
  written : ∀ entry ∈ entries, view.file? j.volume entry.1 ≠ some i
  begun : ∀ r, j.begun? = some r → view.file? j.volume r ≠ some i

/-- Since the volume was as given, nothing has become of its files but what the journal tells. Of
several contents that have been written to one file, the last one is there. -/
structure Kept (w : σ) (j : Journal σ) : Prop where
  keeps : view.Keeps w j.volume (Untouched view j j.written)
  last : ∀ before r content after, j.written = before ++ (r, content) :: after →
    ∃ i, view.file? j.volume r = some i ∧
      (Untouched view j after i → view.content? j.volume i = some content)

/-- The file holds no more than a beginning of this content. -/
def Torn (w : σ) (r : Route) (content : List UInt8) : Prop :=
  ∃ i part, view.file? w r = some i ∧ view.content? w i = some part ∧ part <+: content

variable {view} {w : σ} {j : Journal σ}

theorem kept_start (w : σ) : Kept view w (start w) where
  keeps := .refl
  last before r content after h := by
    cases List.append_eq_nil_iff.mp h.symm |>.2

/-- What has been told stays true if nothing becomes of the files that were told of, and those that
may have changed are touched now. -/
theorem Kept.of_keeps {j' : Journal σ} {kept : ι → Prop} (h : Kept view w j)
    (hkeeps : view.Keeps j.volume j'.volume kept) (hwritten : j'.written = j.written)
    (hbegun : ∀ r, j.begun? = some r → j'.begun? = some r)
    (hkept : ∀ entries i, Untouched view j' entries i → kept i) : Kept view w j' := by
  have huntouched : ∀ entries i, Untouched view j' entries i → Untouched view j entries i :=
    fun entries i hi =>
      ⟨fun entry hentry hfile => hi.written entry hentry (hkeeps.file _ _ hfile),
        fun r hr hfile => hi.begun r (hbegun r hr) (hkeeps.file _ _ hfile)⟩
  constructor
  · rw [hwritten]
    exact ⟨fun r i hfile => hkeeps.file _ _ (h.keeps.file _ _ hfile), fun i hi =>
      (hkeeps.content i (hkept _ _ hi)).trans (h.keeps.content i (huntouched _ _ hi))⟩
  · rw [hwritten]
    intro before r content after hsplit
    obtain ⟨i, hfile, hcontent⟩ := h.last before r content after hsplit
    exact ⟨i, hkeeps.file _ _ hfile, fun hi =>
      (hkeeps.content i (hkept _ _ hi)).trans (hcontent (huntouched _ _ hi))⟩

/-- Once a file that has been begun has its content, it is the last that was written. -/
theorem Kept.finish {w' : σ} {r : Route} {content : List UInt8} {i : ι} (h : Kept view w j)
    (hbegun : j.begun? = some r) (hfile : view.file? j.volume r = some i)
    (hkeeps : view.Keeps j.volume w' (· ≠ i)) (hcontent : view.content? w' i = some content) :
    Kept view w (enterFilled r content { j with volume := w' }) := by
  have hfile' : view.file? w' r = some i := hkeeps.file r i hfile
  -- An entry for the new file takes the place of its having been begun.
  have huntouched : ∀ entries i', Untouched view (enterFilled r content { j with volume := w' })
      (entries ++ [(r, content)]) i' → i' ≠ i ∧ Untouched view j entries i' := by
    intro entries i' hi'
    obtain ⟨hentries, hlast⟩ := List.forall_mem_append.mp hi'.written
    have hne : i' ≠ i := by
      rintro rfl
      exact hlast (r, content) List.mem_cons_self hfile'
    refine ⟨hne, fun entry hentry hold => hentries entry hentry (hkeeps.file _ _ hold), ?_⟩
    intro r' hr' hold
    obtain rfl := Option.some.inj (hr'.symm.trans hbegun)
    exact hne (Option.some.inj (hold.symm.trans hfile))
  constructor
  · exact ⟨fun _ _ hold => hkeeps.file _ _ (h.keeps.file _ _ hold), fun i' hi' =>
      have ⟨hne, hold⟩ := huntouched _ _ hi'
      (hkeeps.content i' hne).trans (h.keeps.content i' hold)⟩
  · intro before r' content' after (hsplit : j.written ++ [(r, content)] = _)
    rcases List.eq_nil_or_concat after with rfl | ⟨after, entry, rfl⟩
    · -- The new entry is the one in question.
      obtain ⟨-, hentry⟩ := List.append_inj' hsplit rfl
      cases hentry
      exact ⟨i, hfile', fun _ => hcontent⟩
    · -- An older entry is, and the new one is the last of those after it.
      rw [List.concat_eq_append] at hsplit ⊢
      rw [← List.cons_append, ← List.append_assoc] at hsplit
      obtain ⟨hold, hentry⟩ := List.append_inj' hsplit rfl
      cases hentry
      obtain ⟨i', hi', hcontent'⟩ := h.last before r' content' after hold
      refine ⟨i', hkeeps.file _ _ hi', fun hi => ?_⟩
      obtain ⟨hne, hi⟩ := huntouched _ _ hi
      exact (hkeeps.content i' hne).trans (hcontent' hi)

/-- What can be read before and after is the same if nothing is told of it. -/
theorem Kept.read_eq [Volume σ ε] (hview : view.Lawful) (h : Kept view w j) {r : Route}
    {content content' : List UInt8} (hbefore : Volume.read w r = .ok (.ok content))
    (hafter : Volume.read j.volume r = .ok (.ok content'))
    (huntouched : ∀ i, view.file? w r = some i → Untouched view j j.written i) :
    content' = content := by
  obtain ⟨i, hfile, hcontent⟩ := hview.read w r content hbefore
  obtain ⟨i', hfile', hcontent'⟩ := hview.read j.volume r content' hafter
  obtain rfl := Option.some.inj (hfile'.symm.trans (h.keeps.file r i hfile))
  rw [h.keeps.content i' (huntouched i' hfile), hcontent] at hcontent'
  exact (Option.some.inj hcontent').symm

/-- Where the last that is told of a file is that it has been written, this is what can be read. -/
theorem Kept.read_last [Volume σ ε] (hview : view.Lawful) (h : Kept view w j)
    {before after : List (Route × List UInt8)} {r : Route} {content content' : List UInt8}
    (hwritten : j.written = before ++ (r, content) :: after)
    (hread : Volume.read j.volume r = .ok (.ok content'))
    (huntouched : ∀ i, view.file? j.volume r = some i → Untouched view j after i) :
    content' = content := by
  obtain ⟨i, hfile, hcontent⟩ := h.last before r content after hwritten
  obtain ⟨i', hfile', hcontent'⟩ := hview.read j.volume r content' hread
  obtain rfl := Option.some.inj (hfile'.symm.trans hfile)
  rw [hcontent (huntouched i' hfile)] at hcontent'
  exact (Option.some.inj hcontent').symm

end

/-! ## Programs that write no file -/

section

variable [Volume σ ε] {view : Volume.View σ ι} {w : σ} {j j' : Journal σ}

/-- Nothing has been written or begun, and what was told is still true. -/
structure Quiet (view : Volume.View σ ι) (j j' : Journal σ) : Prop where
  written : j'.written = j.written
  begun : j'.begun? = j.begun?
  kept : ∀ w, Kept view w j → Kept view w j'

theorem Quiet.refl : Quiet view j j :=
  ⟨rfl, rfl, fun _ h => h⟩

theorem Quiet.trans {j'' : Journal σ} (h : Quiet view j j') (h' : Quiet view j' j'') :
    Quiet view j j'' :=
  ⟨h'.written.trans h.written, h'.begun.trans h.begun, fun w hw => h'.kept w (h.kept w hw)⟩

theorem quiet_of_keeps {w' : σ} (h : view.Keeps j.volume w' fun _ => True) :
    Quiet view j { j with volume := w' } :=
  ⟨rfl, rfl, fun _ hw => hw.of_keeps h rfl (fun _ hr => hr) fun _ _ _ => trivial⟩

/-- Making folders writes no file. -/
def quietly (hview : view.Lawful) :
    FolderSimulation (ExceptT ε (StateM (Journal σ))) (ExceptT ε (StateM (Journal σ))) where
  Rel p _ := ∀ j, Quiet view j (Volume.run j p).2
  ofPure a j := .refl
  ofBind {α β p q f g} hp hf j := by
    obtain ⟨outcome, j', hrun⟩ : ∃ outcome j', Volume.run j p = (outcome, j') := ⟨_, _, rfl⟩
    have hquiet := hp j
    rw [hrun] at hquiet
    cases outcome with
    | ok a =>
        rw [Volume.run_bind_of_ok hrun]
        exact hquiet.trans (hf a j')
    | error e =>
        rw [Volume.run_bind_of_error hrun]
        exact hquiet
  kind r j := .refl
  makeFolder r j := by
    change Quiet view j (j.after id (Volume.makeFolder j.volume r)).2
    have hkeeps := quiet_of_keeps (hview.makeFolder j.volume r)
    by_cases h : (Volume.makeFolder j.volume r).1 = .ok (.ok ())
    · rw [after_of_granted h]
      exact hkeeps
    · rw [after_of_not_granted h]
      exact hkeeps

theorem quiet_makeFolders (hview : view.Lawful) (j : Journal σ) (r : Route) :
    Quiet view j (Volume.run j (Disk.makeFolders r : ExceptT ε (StateM (Journal σ)) _)).2 :=
  (quietly hview).makeFoldersUpTo _ r j

/-! ## Writing a file -/

/-- A file has been opened. -/
structure Opened (view : Volume.View σ ι) (w : σ) (j : Journal σ) (r : Route) (j' : Journal σ) :
    Prop where
  kept : Kept view w j'
  written : j'.written = j.written
  begun : j'.begun? = some r
  file : ∃ i, view.file? j'.volume r = some i

/-- A file has been written. -/
structure Finished (view : Volume.View σ ι) (w : σ) (j : Journal σ) (r : Route)
    (content : List UInt8) (j' : Journal σ) : Prop where
  kept : Kept view w j'
  written : j'.written = j.written ++ [(r, content)]
  begun : j'.begun? = none

/-- A file has been opened, but has not got more than a beginning of its content. -/
structure Broken (view : Volume.View σ ι) (w : σ) (j : Journal σ) (r : Route)
    (content : List UInt8) (j' : Journal σ) : Prop extends Opened view w j r j' where
  torn : Torn view j'.volume r content
  not_steady : ¬ view.Steady

theorem yields_clear (hview : view.Lawful) (h : Kept view w j) (hnone : j.begun? = none)
    (r : Route) :
    Volume.Yields j (Disk.clear r : ExceptT ε (StateM (Journal σ)) _) fun outcome j' =>
      outcome = .ok (.ok ()) ∧ Opened view w j r j' ∨
        outcome ≠ .ok (.ok ()) ∧ Quiet view j j' := by
  have hrun : Volume.run j (Disk.clear r : ExceptT ε (StateM (Journal σ)) _) =
      j.after (enterOpened r) (Volume.clear j.volume r) := rfl
  rw [Volume.Yields, hrun]
  by_cases hgranted : (Volume.clear j.volume r).1 = .ok (.ok ())
  · obtain ⟨i, hfile, -, hkeeps⟩ := hview.clear_granted _ _ hgranted
    rw [after_of_granted hgranted]
    refine .inl ⟨rfl, h.of_keeps hkeeps rfl ?_ ?_, rfl, rfl, i, hfile⟩
    · intro r' hr'
      cases hnone.symm.trans hr'
    · rintro entries i' hi' rfl
      exact hi'.begun r rfl hfile
  · rw [after_of_not_granted hgranted]
    exact .inr ⟨hgranted, quiet_of_keeps (hview.clear_refused _ _ hgranted)⟩

theorem yields_fill (hview : view.Lawful) {r : Route} (h : Opened view w j r j')
    (content : List UInt8) :
    Volume.Yields j' (Disk.fill r content : ExceptT ε (StateM (Journal σ)) _) fun outcome j'' =>
      outcome = .ok (.ok ()) ∧ Finished view w j r content j'' ∨
        outcome ≠ .ok (.ok ()) ∧ Broken view w j r content j'' := by
  have hrun : Volume.run j' (Disk.fill r content : ExceptT ε (StateM (Journal σ)) _) =
      j'.after (enterFilled r content) (Volume.fill j'.volume r content) := rfl
  rw [Volume.Yields, hrun]
  obtain ⟨hkept, hwritten, hbegun, i, hfile⟩ := h
  obtain ⟨hkeeps, part, hpart, hfront, hwhole⟩ := hview.fill j'.volume r content i hfile
  have hfile' := hkeeps.file r i hfile
  by_cases hgranted : (Volume.fill j'.volume r content).1 = .ok (.ok ())
  · rw [after_of_granted hgranted]
    rw [hwhole hgranted] at hpart
    refine .inl ⟨rfl, hkept.finish hbegun hfile hkeeps hpart, ?_, rfl⟩
    exact congrArg (· ++ [(r, content)]) hwritten
  · rw [after_of_not_granted hgranted]
    refine .inr ⟨hgranted, ⟨hkept.of_keeps hkeeps rfl (fun _ hr => hr) ?_, hwritten, hbegun,
      i, hfile'⟩, ⟨i, part, hfile', hpart, hfront⟩, fun hsteady => hgranted (hsteady _ _ _ i hfile)⟩
    rintro entries i' hi' rfl
    exact hi'.begun r hbegun hfile'

/-- A text is entered in the journal if it has been written, and only then. -/
theorem yields_writeText (hview : view.Lawful) (h : Kept view w j) (hnone : j.begun? = none)
    (r : Route) (text : String) :
    Volume.Yields j (Disk.writeText r text : ExceptT ε (StateM (Journal σ)) _) fun outcome j' =>
      outcome = .ok (.ok ()) ∧ Finished view w j r (Text.Utf8.encode text) j' ∨
        outcome ≠ .ok (.ok ()) ∧
          (Quiet view j j' ∨ Broken view w j r (Text.Utf8.encode text) j') := by
  have hfolders : Volume.Yields j (Disk.makeFolders r.parent : ExceptT ε (StateM (Journal σ)) _)
      fun _ j' => Quiet view j j' := quiet_makeFolders hview j r.parent
  refine hfolders.bind ?_ fun e j₁ hquiet => .inr ⟨nofun, .inl hquiet⟩
  rintro (blockage | _) j₁ hquiet
  · exact .ofPure (.inr ⟨nofun, .inl hquiet⟩)
  refine (yields_clear hview (hquiet.kept w h) (hquiet.begun.trans hnone) r).bind ?_ ?_
  · rintro (obstacle | _) j₂ (⟨hopen, hopened⟩ | ⟨hopen, hquiet'⟩)
    · cases hopen
    · exact .ofPure (.inr ⟨nofun, .inl (hquiet.trans hquiet')⟩)
    · have hopened' : Opened view w j r j₂ :=
        { hopened with written := hopened.written.trans hquiet.written }
      refine (yields_fill hview hopened' _).bind ?_ ?_
      · rintro (obstacle | _) j₃ (⟨hfill, hfinished⟩ | ⟨hfill, hbroken⟩)
        · cases hfill
        · exact .ofPure (.inr ⟨nofun, .inr hbroken⟩)
        · exact .ofPure (.inl ⟨rfl, hfinished⟩)
        · exact absurd rfl hfill
      · rintro e j₃ (⟨hfill, -⟩ | ⟨-, hbroken⟩)
        · cases hfill
        · exact .inr ⟨nofun, .inr hbroken⟩
    · exact absurd rfl hopen
  · rintro e j₂ (⟨hopen, -⟩ | ⟨-, hquiet'⟩)
    · cases hopen
    · exact .inr ⟨nofun, .inl (hquiet.trans hquiet')⟩

end

end Journal

end VisitGraph
