import VisitGraph.Proofs.Analysis.Legible
import VisitGraph.Proofs.Command.Inputs
import VisitGraph.Proofs.Command.Simulation
import VisitGraph.Proofs.Disk.Journal
import VisitGraph.Proofs.FileTree.Volume

/-! # What a run writes

The texts of all four outputs are there before the first of them is written, and they come from what
the inputs held at the beginning. Nothing is written if there are no texts; otherwise the outputs
are written in order, up to the first that cannot be. All this holds on every lawful volume, also on
one where the writing of a file breaks off: that file then has a beginning of its text, and it is
the last one that the run has touched. -/

namespace VisitGraph

/-- There are texts for every analysis. -/
theorem Analysis.succeeds_outputs {name separator listing trace : String} {a : Analysis}
    (h : ofTexts name separator listing trace = .ok a) : Succeeds a.outputs := by
  have hlegible := legible_of_ofTexts h
  obtain ⟨statistics, -, hstatistics, -⟩ := hlegible.statistics
  obtain ⟨table, -, htable, -⟩ := hlegible.adjacency
  simp only [ofTexts, bind_eq_ok] at h
  obtain ⟨l, -, samples, -, ha⟩ := h
  obtain ⟨mean, spread, hmean, hspread⟩ :=
    Statistics.exists_real_of_ofVisits (parts_of_ofSamples ha).statistics
  have hsummary : Succeeds a.statistics.summary := by
    rw [Statistics.summary, hmean, hspread]
    exact ⟨_, rfl⟩
  exact Succeeds.bind ⟨statistics, hstatistics⟩ fun _ =>
    Succeeds.bind ⟨table, htable⟩ fun _ => hsummary.bind fun _ => ⟨_, rfl⟩

namespace Command

/-- Files as they are entered in a journal. -/
def entriesOf (files : List (Route × String)) : List (Route × List UInt8) :=
  files.map fun (r, text) => (r, Text.Utf8.encode text)

/-- The routes of the outputs in the order in which they are written. -/
def routesOf (d : Destinations) : List Route :=
  [d.sequence, d.statistics, d.table, d.graph]

variable {σ ε ι : Type} [Volume σ ε] {view : Volume.View σ ι}

/-- The texts of the outputs for what the inputs hold. -/
def Prepared (w : σ) (s : Settings) (trace : Route) (outputs : Outputs) : Prop :=
  ∃ listing samples a, Holds w s.functions listing ∧ Holds w trace samples ∧
    Analysis.ofTexts s.graphName s.separator listing samples = .ok a ∧ a.outputs = .ok outputs

/-- An input is missing, unreadable or no text, or the texts cannot be analysed. -/
inductive Defect (w : σ) (s : Settings) (trace : Route) : Prop where
  | missing (h : Missing w s.functions ∨ Missing w trace)
  | unreadable (h : Unreadable w s.functions ∨ Unreadable w trace)
  | garbled {fault} (h : Garbled w s.functions fault ∨ Garbled w trace fault)
  | fault {listing samples fault} (hlisting : Holds w s.functions listing)
      (hsamples : Holds w trace samples)
      (h : Analysis.ofTexts s.graphName s.separator listing samples = .error fault)

/-! ## Writing -/

/-- Some files have been written in order, and at most the next one has been begun. -/
structure Advanced (view : Volume.View σ ι) (w : σ) (j : Journal σ) (files : List (Route × String))
    (written : List (Route × String)) (j' : Journal σ) : Prop where
  front : written <+: files
  kept : Journal.Kept view w j'
  entries : j'.written = j.written ++ entriesOf written
  begun : ∀ r, j'.begun? = some r → ∃ text, written ++ [(r, text)] <+: files ∧
    Journal.Torn view j'.volume r (Text.Utf8.encode text) ∧ ¬ view.Steady

/-- The files are written in order, up to the first that cannot be. -/
theorem yields_writeFiles (hview : view.Lawful) {w : σ} {j : Journal σ}
    (h : Journal.Kept view w j) (hnone : j.begun? = none) (files : List (Route × String)) :
    Volume.Yields j (writeFiles files : ExceptT ε (StateM (Journal σ)) _) fun outcome j' =>
      ∃ written, Advanced view w j files written j' ∧
        (written = files ↔ outcome = .ok (.ok ())) := by
  induction files generalizing j with
  | nil =>
      refine .ofPure ⟨[], ⟨List.prefix_rfl, h, (List.append_nil _).symm, ?_⟩, by simp⟩
      rw [hnone]
      exact nofun
  | cons file files ih =>
      obtain ⟨r, text⟩ := file
      -- What is known when the first file has not been written.
      have hstop : ∀ j', Journal.Quiet view j j' ∨
          Journal.Broken view w j r (Text.Utf8.encode text) j' →
          Advanced view w j ((r, text) :: files) [] j' := by
        rintro j' (hquiet | hbroken)
        · refine ⟨List.nil_prefix, hquiet.kept w h, ?_, ?_⟩
          · rw [hquiet.written]
            exact (List.append_nil _).symm
          · rw [hquiet.begun, hnone]
            exact nofun
        · refine ⟨List.nil_prefix, hbroken.kept, ?_, ?_⟩
          · rw [hbroken.written]
            exact (List.append_nil _).symm
          · intro r' hr'
            obtain rfl := Option.some.inj (hr'.symm.trans hbroken.begun)
            exact ⟨text, ⟨files, rfl⟩, hbroken.torn, hbroken.not_steady⟩
      refine (Journal.yields_writeText hview h hnone r text).bind ?_ ?_
      · rintro (blockage | _) j₁ (⟨hdone, hfinished⟩ | ⟨hdone, hbroken⟩)
        · cases hdone
        · exact .ofPure ⟨[], hstop j₁ hbroken, by simp⟩
        · refine (ih hfinished.kept hfinished.begun).mono ?_
          rintro outcome j' ⟨written, hadvanced, hall⟩
          refine ⟨(r, text) :: written, ⟨?_, hadvanced.kept, ?_, ?_⟩, ?_⟩
          · exact List.cons_prefix_cons.mpr ⟨rfl, hadvanced.front⟩
          · rw [hadvanced.entries, hfinished.written, List.append_assoc]
            rfl
          · intro r' hr'
            obtain ⟨text', hnext, htorn⟩ := hadvanced.begun r' hr'
            exact ⟨text', List.cons_prefix_cons.mpr ⟨rfl, hnext⟩, htorn⟩
          · rw [← hall, List.cons.injEq, eq_self, true_and]
        · exact absurd rfl hdone
      · rintro e j₁ (⟨hdone, -⟩ | ⟨-, hbroken⟩)
        · cases hdone
        · exact ⟨[], hstop j₁ hbroken, by simp⟩

/-! ## The course of a run -/

/-- How a run with a trace ends, and the journal then. -/
inductive Ends (view : Volume.View σ ι) (w : σ) (s : Settings) (trace : Route) :
    Except ε Outcome → Journal σ → Prop where
  | troubled {result} (h : EitherTrouble w s.functions trace result) :
      Ends view w s trace result (.start w)
  | faulty {listing samples fault} (hlisting : Holds w s.functions listing)
      (hsamples : Holds w trace samples)
      (h : Analysis.ofTexts s.graphName s.separator listing samples = .error fault) :
      Ends view w s trace (.ok (.refused (faultMessage fault))) (.start w)
  | writing {outputs written result j} (h : Prepared w s trace outputs)
      (hadvanced : Advanced view w (.start w) (outputs.files (.ofSettings s trace)) written j)
      (hdone : written = outputs.files (.ofSettings s trace) ↔
        ∃ lines, result = .ok (.done lines)) :
      Ends view w s trace result j

/-- The ending of a run told by its outcome. -/
def YieldsEnds (view : Volume.View σ ι) (w : σ) (s : Settings) (trace : Route)
    (p : ExceptT ε (StateM (Journal σ)) Ending) : Prop :=
  Volume.Yields (Journal.start w) p fun result j =>
    Ends view w s trace (result.map Ending.outcome) j

variable {w : σ} {s : Settings} {trace : Route}

theorem ends_writeOutputs (hview : view.Lawful) {a : Analysis} {outputs : Outputs}
    (h : Prepared w s trace outputs) (ha : a.outputs = .ok outputs) (story : List Notice) :
    YieldsEnds view w s trace (writeOutputs s (.ofSettings s trace) story a) := by
  have hfiles := yields_writeFiles hview (Journal.kept_start w) rfl
    (outputs.files (.ofSettings s trace))
  rw [writeOutputs, ha]
  refine hfiles.bind ?_ ?_
  · rintro (blockage | _) j ⟨written, hadvanced, hall⟩
    · exact .ofPure (.writing h hadvanced (hall.trans (by simp [Except.map])))
    · exact .ofPure (.writing h hadvanced (hall.trans (by simp [Except.map])))
  · rintro e j ⟨written, hadvanced, hall⟩
    exact .writing h hadvanced (hall.trans (by simp [Except.map]))

/-- A journal does not change the inputs. -/
theorem Trouble.of_journal {j : Journal σ} {r : Route} {result : Except ε Outcome}
    (h : Trouble j r result) : Trouble j.volume r result := by
  cases h with
  | missing h => exact .missing h
  | blocked h => exact .blocked h
  | failed h => exact .failed h
  | garbled h => exact .garbled h

theorem EitherTrouble.of_journal {j : Journal σ} {functions trace : Route}
    {result : Except ε Outcome} (h : EitherTrouble j functions trace result) :
    EitherTrouble j.volume functions trace result :=
  h.imp Trouble.of_journal Trouble.of_journal

/-- A step before the writing, and what comes after it unless it ends the run. -/
theorem YieldsEnds.ofGives {α : Type} {p : ExceptT ε (StateM (Journal σ)) (Except Outcome α)}
    {f : Except Outcome α → ExceptT ε (StateM (Journal σ)) Ending} {good : α → Prop}
    {bad : Except ε Outcome → Prop} (h : Gives (Journal.start w) p good bad)
    (hbad : ∀ result, bad result → EitherTrouble (Journal.start w) s.functions trace result)
    (hstop : ∀ outcome, ∃ story, f (.error outcome) = pure ⟨outcome, story⟩)
    (hgood : ∀ a, good a → YieldsEnds view w s trace (f (.ok a))) :
    YieldsEnds view w s trace (p >>= f) := by
  refine Volume.Yields.bind h ?_ ?_
  · rintro x j ⟨rfl, ha | hstopped⟩
    · exact hgood _ ha
    · obtain ⟨story, hf⟩ := hstop _
      rw [hf]
      exact .ofPure (.troubled (hbad _ hstopped).of_journal)
  · rintro e j ⟨rfl, hstep⟩
    cases hstep with
    | failed hfailed => exact .troubled (hbad _ hfailed).of_journal

theorem ends_runOn (hview : view.Lawful) (hfunctions : Present w s.functions)
    (htrace : Present w trace) : YieldsEnds view w s trace (runOn s trace) := by
  have hinputs := gives_readInputs (w := Journal.start w) hfunctions htrace
  refine .ofGives hinputs (fun _ h => h) (fun _ => ⟨_, rfl⟩) ?_
  rintro ⟨listing, samples⟩ ⟨hlisting, hsamples⟩
  dsimp only
  cases hanalysis : Analysis.ofTexts s.graphName s.separator listing samples with
  | error fault => exact .ofPure (.faulty hlisting hsamples hanalysis)
  | ok a =>
      obtain ⟨outputs, houtputs⟩ := Analysis.succeeds_outputs hanalysis
      exact ends_writeOutputs hview
        ⟨listing, samples, a, hlisting, hsamples, hanalysis, houtputs⟩ houtputs _

theorem ends_runWith (hview : view.Lawful) (htrace : s.trace? = some trace) :
    YieldsEnds view w s trace (runWith s) := by
  refine .ofGives (gives_checkInputs (Journal.start w) htrace) (fun _ h => h)
    (fun _ => ⟨_, rfl⟩) ?_
  rintro found ⟨rfl, hfunctions, htraced⟩
  exact ends_runOn hview hfunctions htraced

/-! ## Accounts -/

/-- What is known of a run with a trace from its result and its journal. The outputs are written in
order, all of them if and only if the run is done. With a defect in the inputs nothing happens to
the volume, and what can be read is refused with a message. Without one the texts are those for what
the inputs held at the beginning, whatever is written over them later; at most the next output is
begun after the last that has been written, and only where writing can break off. Every other file
is kept, and where several outputs go to one file the last of them stays. -/
structure Accounts (view : Volume.View σ ι) (w : σ) (s : Settings) (trace : Route)
    (result : Except ε Outcome) (j : Journal σ) : Prop where
  front : j.written.map Prod.fst <+: routesOf (.ofSettings s trace)
  complete : j.written.map Prod.fst = routesOf (.ofSettings s trace) ↔
    ∃ lines, result = .ok (.done lines)
  next : ∀ r, j.begun? = some r → j.written.map Prod.fst ++ [r] <+: routesOf (.ofSettings s trace)
  defective : Defect w s trace → j = .start w ∧ (¬ Unreadable w s.functions →
    ¬ Unreadable w trace → ∃ message, result = .ok (.refused message))
  prepared : ¬ Defect w s trace → ∃ outputs, Prepared w s trace outputs ∧
    j.written <+: entriesOf (outputs.files (.ofSettings s trace)) ∧
    ∀ r, j.begun? = some r → ∃ content,
      j.written ++ [(r, content)] <+: entriesOf (outputs.files (.ofSettings s trace)) ∧
        Journal.Torn view j.volume r content
  steady : view.Steady → j.begun? = none
  kept : Journal.Kept view w j

theorem Prepared.not_defect {outputs : Outputs} (h : Prepared w s trace outputs) :
    ¬ Defect w s trace := by
  obtain ⟨listing, samples, a, hlisting, hsamples, hanalysis, -⟩ := h
  rintro (hmissing | hunreadable | hgarbled | ⟨hlisting', hsamples', hfault⟩)
  · exact hmissing.elim hlisting.1.not_missing hsamples.1.not_missing
  · exact hunreadable.elim hlisting.not_unreadable hsamples.not_unreadable
  · exact hgarbled.elim (hlisting.not_garbled _) (hsamples.not_garbled _)
  · obtain rfl := hlisting.unique hlisting'
    obtain rfl := hsamples.unique hsamples'
    rw [hanalysis] at hfault
    cases hfault

theorem defect_of_trouble {result : Except ε Outcome}
    (h : EitherTrouble w s.functions trace result) : Defect w s trace := by
  rcases h with (h | h | h | h) | (h | h | h | h)
  · exact .missing (.inl h)
  · exact .unreadable (.inl h)
  · exact .unreadable (.inl h)
  · exact .garbled (.inl h)
  · exact .missing (.inr h)
  · exact .unreadable (.inr h)
  · exact .unreadable (.inr h)
  · exact .garbled (.inr h)

theorem map_fst_entriesOf (files : List (Route × String)) :
    (entriesOf files).map Prod.fst = files.map Prod.fst := by
  rw [entriesOf, List.map_map]
  rfl

/-- A run that a defect has ended before anything was written. -/
theorem accounts_of_defect {result : Except ε Outcome} (h : Defect w s trace)
    (hdone : ∀ lines, result ≠ .ok (.done lines))
    (hmessage : ¬ Unreadable w s.functions → ¬ Unreadable w trace →
      ∃ message, result = .ok (.refused message)) :
    Accounts view w s trace result (.start w) where
  front := List.nil_prefix
  complete := ⟨nofun, fun ⟨lines, hlines⟩ => absurd hlines (hdone lines)⟩
  next _ := nofun
  defective _ := ⟨rfl, hmessage⟩
  prepared hnone := absurd h hnone
  steady _ := rfl
  kept := Journal.kept_start w

/-- A run that has written so many of its outputs. -/
theorem accounts_of_prepared {result : Except ε Outcome} {j : Journal σ} {outputs : Outputs}
    {written : List (Route × String)} (h : Prepared w s trace outputs)
    (hadvanced : Advanced view w (.start w) (outputs.files (.ofSettings s trace)) written j)
    (hdone : written = outputs.files (.ofSettings s trace) ↔ ∃ lines, result = .ok (.done lines)) :
    Accounts view w s trace result j := by
  have hroutes : routesOf (.ofSettings s trace) =
      (outputs.files (.ofSettings s trace)).map Prod.fst := rfl
  have hentries : j.written = entriesOf written := hadvanced.entries
  constructor
  · rw [hentries, map_fst_entriesOf, hroutes]
    exact hadvanced.front.map Prod.fst
  · rw [← hdone, hentries, map_fst_entriesOf, hroutes]
    constructor
    · intro heq
      have hlength := congrArg List.length heq
      rw [List.length_map, List.length_map] at hlength
      exact hadvanced.front.eq_of_length hlength
    · intro heq
      rw [heq]
  · intro r hr
    obtain ⟨text, hnext, -⟩ := hadvanced.begun r hr
    rw [hentries, map_fst_entriesOf, hroutes]
    simpa using hnext.map Prod.fst
  · intro hdefect
    exact absurd hdefect h.not_defect
  · intro _
    refine ⟨outputs, h, ?_, ?_⟩
    · rw [hentries]
      exact hadvanced.front.map _
    · intro r hr
      obtain ⟨text, hnext, htorn, -⟩ := hadvanced.begun r hr
      refine ⟨_, ?_, htorn⟩
      rw [hentries]
      simpa [entriesOf] using hnext.map fun file => (file.1, Text.Utf8.encode file.2)
  · intro hsteady
    rw [Option.eq_none_iff_forall_ne_some]
    intro r hr
    obtain ⟨text, -, -, hnot⟩ := hadvanced.begun r hr
    exact hnot hsteady
  · exact hadvanced.kept

theorem Ends.accounts {result : Except ε Outcome} {j : Journal σ}
    (h : Ends view w s trace result j) : Accounts view w s trace result j := by
  rcases h with htrouble | ⟨hlisting, hsamples, hfault⟩ | ⟨hprepared, hadvanced, hdone⟩
  · refine accounts_of_defect (defect_of_trouble htrouble) ?_ ?_
    · exact fun lines => htrouble.elim (·.not_done lines) (·.not_done lines)
    · intro hfunctions htrace
      exact htrouble.elim (·.exists_message hfunctions) (·.exists_message htrace)
  · exact accounts_of_defect (.fault hlisting hsamples hfault) nofun fun _ _ => ⟨_, rfl⟩
  · exact accounts_of_prepared hprepared hadvanced hdone

/-- What is known of a run without a trace: nothing becomes of the volume, and only a missing
listing is told. -/
structure Idle (w : σ) (s : Settings) (result : Except ε Outcome) (j : Journal σ) : Prop where
  unchanged : j = .start w
  not_done : ∀ lines, result ≠ .ok (.done lines)
  missing : Missing w s.functions → ∃ message, result = .ok (.refused message)

theorem idle_runWith (w : σ) (htrace : s.trace? = none) :
    Volume.Yields (Journal.start w) (runWith s : ExceptT ε (StateM (Journal σ)) Ending)
      fun result j => Idle w s (result.map Ending.outcome) j := by
  have htroubled : ∀ result, result = .ok .noTrace ∧ ¬ Missing (Journal.start w) s.functions ∨
      Trouble (Journal.start w) s.functions result → Idle w s result (.start w) := by
    rintro result (⟨rfl, hpresent⟩ | htrouble)
    · exact ⟨rfl, nofun, fun hmissing => absurd hmissing hpresent⟩
    · exact ⟨rfl, htrouble.not_done, fun hmissing =>
        htrouble.of_journal.exists_message hmissing.not_unreadable⟩
  refine Volume.Yields.bind (gives_checkInputs_none (Journal.start w) htrace) ?_ ?_
  · rintro x j ⟨rfl, hnone | hstopped⟩
    · exact hnone.elim
    · exact .ofPure (htroubled _ hstopped)
  · rintro e j ⟨rfl, hstep⟩
    cases hstep with
    | failed hfailed => exact htroubled _ hfailed

/-- What becomes of a lawful volume in a run with arguments that are accepted. With a trace among
them the accounts are as above. Without one, which happens where a second divider stands in its
place, nothing becomes of it. The journal makes no difference. -/
theorem run_accounts (hview : view.Lawful) (w : σ) {arguments : List String} {s : Settings}
    (h : Arguments.read arguments = .ok s) :
    ∃ result j, Volume.run w (run arguments) = (result, j.volume) ∧
      Volume.run (Journal.start w) (run arguments) = (result, j) ∧
      (∀ trace, s.trace? = some trace →
        Accounts view w s trace (result.map Ending.outcome) j) ∧
      (s.trace? = none → Idle w s (result.map Ending.outcome) j) := by
  have hvolume := Journal.simulation.run arguments (Journal.start w)
  have hwith : (run arguments : ExceptT ε (StateM (Journal σ)) Ending) = runWith s := by
    rw [run, h]
  refine ⟨_, _, hvolume, rfl, ?_, ?_⟩
  · intro trace htrace
    rw [hwith]
    exact Ends.accounts (ends_runWith hview htrace)
  · intro htrace
    rw [hwith]
    exact idle_runWith w htrace

/-- A tree with a listing and a trace in the current folder. -/
def listingAndTrace : FileTree :=
  ⟨["work"], ⟨[(["work"], .folder), (["work", "f"], .file (Text.Utf8.encode "f::0::f\ng::10::f")),
    (["work", "t"], .file (Text.Utf8.encode "3\n12\n4"))]⟩⟩

/-- Arguments that send the last output to the listing, and two others to the trace. -/
def overwriting : List String :=
  ["f", "t", "--separator", "::", "--sequence-out", "t", "--table-out=./t", "--graph-out",
    "../work/f"]

/-- Outputs that are written over the inputs. -/
theorem run_accounts_overwriting :
    FileTree.view.Lawful ∧ ∃ s ending j, Arguments.read overwriting = .ok s ∧
      s.trace? = some (.ofString "t") ∧
      (run overwriting : StateM FileTree Ending).run listingAndTrace = (ending, j.volume) ∧
      Accounts FileTree.view listingAndTrace s (.ofString "t") (.ok ending.outcome) j ∧
      j.begun? = none := by
  obtain ⟨s, hread, htrace⟩ : ∃ s, Arguments.read overwriting = .ok s ∧
      s.trace? = some (.ofString "t") := ⟨_, rfl, rfl⟩
  obtain ⟨result, j, hrun, -, haccounts, -⟩ :=
    run_accounts FileTree.lawful_view listingAndTrace hread
  obtain ⟨ending, rfl, hending⟩ :=
    FileTree.exists_run_of_rel (FileTree.simulation.run overwriting) hrun
  have hkept := haccounts _ htrace
  exact ⟨FileTree.lawful_view, s, ending, j, hread, htrace, hending, hkept,
    hkept.steady FileTree.steady_view⟩

/-- A tree with a listing that is no text, and a trace that is called like the divider. -/
def garbledListing : FileTree :=
  ⟨[], ⟨[(["f"], .file [0xff]), (["--"], .file (Text.Utf8.encode "10\n"))]⟩⟩

/-- A second divider is dropped although it stands for the trace. The run ends there, without a
message about the listing. -/
theorem run_second_divider :
    ∃ s fault, Arguments.read ["f", "--", "--"] = .ok s ∧
      Garbled garbledListing s.functions fault ∧ ¬ Unreadable garbledListing s.functions ∧
      garbledListing.kind (.ofString "--") = .ok .file ∧
      (run ["f", "--", "--"] : StateM FileTree Ending).run garbledListing =
        (⟨.noTrace, []⟩, garbledListing) ∧
      ∀ message, Outcome.noTrace ≠ .refused message := by
  refine ⟨_, .notUtf8 ⟨0, 1, 0xff, .start⟩, rfl, ⟨⟨.file, rfl⟩, [0xff], rfl, rfl⟩, ?_, rfl, rfl,
    nofun⟩
  rintro (hlong | ⟨e, -⟩ | ⟨-, hwithheld⟩)
  · cases hlong
  · exact e.elim
  · exact hwithheld [0xff] rfl

end Command

end VisitGraph
