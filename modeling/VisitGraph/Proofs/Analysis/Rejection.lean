import VisitGraph.Proofs.Analysis.Completion
import VisitGraph.Proofs.Listing.Reading
import VisitGraph.Proofs.Trace.Reading

/-! # Rejected texts

Texts are looked at in order: the separator, the lines of the listing, the numbers in its entries,
the lines of the trace. The first defect is told; where there is none, the analysis completes. -/

namespace VisitGraph.Analysis

open Text

/-- The separator is not empty, and the lines of the listing stand for the entries. -/
def Lists (separator listing : String) (entries : List Entry) : Prop :=
  separator ≠ "" ∧ List.Forall₂ (Listing.Reads separator) (contents listing.toList) entries

/-- The texts are turned down for a fault, everything before it being in order. -/
inductive Rejected (separator listing trace : String) : Fault → Prop where
  | separator (h : separator = "") : Rejected separator listing trace .emptySeparator
  | line {fault} (h : separator ≠ "")
      (hline : FirstDefect (Listing.LineDefect separator) (filledLines listing.toList) fault) :
      Rejected separator listing trace fault
  | entry {entries fault} (h : Lists separator listing entries)
      (hentry : FirstDefect Layout.EntryDefect entries fault) :
      Rejected separator listing trace fault
  | sample {entries fault} (h : Lists separator listing entries)
      (hsigns : ∀ e ∈ entries, 0 ≤ e.start ∧ 0 ≤ e.length)
      (hsample : FirstDefect Trace.LineDefect (filledLines trace.toList) fault) :
      Rejected separator listing trace fault

/-- Something is wrong somewhere: with the separator, with a line of the listing, with the sign of a
number in an entry, or with a line of the trace. -/
def Defective (separator listing trace : String) : Prop :=
  separator = "" ∨ (∃ line ∈ contents listing.toList, ¬ ∃ e, Listing.Reads separator line e) ∨
    (∃ line ∈ contents listing.toList, ∃ e, Listing.Reads separator line e ∧
      (e.start < 0 ∨ e.length < 0)) ∨
    ∃ line ∈ contents trace.toList, ¬ ∃ address, Trace.Reads line address

theorem read_eq_ok_iff_lists {separator listing : String} {entries : List Entry} :
    Listing.read separator listing = .ok entries ↔ Lists separator listing entries :=
  Listing.read_eq_ok

variable {name separator listing trace : String} {fault : Fault}

/-- Texts are turned down for what is wrong with them and for nothing else. -/
theorem ofTexts_eq_error (h : (lines trace.toList).length ≤ 2 ^ 26 - 2) :
    ofTexts name separator listing trace = .error fault ↔
      Rejected separator listing trace fault := by
  have hcomplete : ∀ l samples, Trace.read trace = .ok samples →
      ofSamples name l samples ≠ .error fault := by
    intro l samples hsamples herror
    have hle := (Trace.length_le_of_read hsamples).trans h
    obtain ⟨a, ha, -⟩ := exists_complete_ofSamples name l hle
    rw [ha] at herror
    cases herror
  simp only [ofTexts, Listing.readLayout, bind_eq_error, bind_eq_ok, Listing.read_eq_error,
    read_eq_ok_iff_lists, Layout.load_eq_error, Trace.read_eq_error]
  constructor
  · rintro (((⟨hsep, rfl⟩ | ⟨hsep, hline⟩) | ⟨entries, hlists, hentry⟩) |
      ⟨l, ⟨entries, hlists, hload⟩, hsample | ⟨samples, hsamples, herror⟩⟩)
    · exact .separator hsep
    · exact .line hsep hline
    · exact .entry hlists hentry
    · exact .sample hlists (Layout.load_eq_ok.mp hload).1 hsample
    · exact absurd herror (hcomplete l samples hsamples)
  · rintro (hsep | ⟨hsep, hline⟩ | ⟨hlists, hentry⟩ | ⟨hlists, hsigns, hsample⟩)
    · exact .inl (.inl (.inl ⟨hsep, rfl⟩))
    · exact .inl (.inl (.inr ⟨hsep, hline⟩))
    · exact .inl (.inr ⟨_, hlists, hentry⟩)
    · obtain ⟨l, hload⟩ := Layout.exists_load hsigns 1
      exact .inr ⟨l, ⟨_, hlists, hload⟩, .inl hsample⟩

/-! ## Something wrong and the first thing wrong -/

theorem defective_of_rejected (h : Rejected separator listing trace fault) :
    Defective separator listing trace := by
  rcases h with hsep | ⟨-, hline⟩ | ⟨⟨-, hreads⟩, hentry⟩ | ⟨-, -, hsample⟩
  · exact .inl hsep
  · obtain ⟨numbered, hmem, hdefect⟩ := exists_firstDefect_iff.mp ⟨fault, hline⟩
    refine .inr (.inl ⟨numbered.2, List.mem_map_of_mem hmem, ?_⟩)
    exact Listing.exists_lineDefect_iff.mp hdefect
  · obtain ⟨e, hmem, hdefect⟩ := exists_firstDefect_iff.mp ⟨fault, hentry⟩
    obtain ⟨line, hline, hread⟩ := exists_rel_of_mem hreads.flip hmem
    refine .inr (.inr (.inl ⟨line, hline, e, hread, ?_⟩))
    exact Layout.exists_entryDefect_iff.mp hdefect
  · obtain ⟨numbered, hmem, hdefect⟩ := exists_firstDefect_iff.mp ⟨fault, hsample⟩
    refine .inr (.inr (.inr ⟨numbered.2, List.mem_map_of_mem hmem, ?_⟩))
    exact Trace.exists_lineDefect_iff.mp hdefect

/-- With the listing in order, only a negative number or the trace can be what is wrong. -/
theorem exists_rejected_of_lists {entries : List Entry} (hlists : Lists separator listing entries)
    (h : Defective separator listing trace) :
    ∃ fault, Rejected separator listing trace fault := by
  by_cases hsigns : ∀ e ∈ entries, 0 ≤ e.start ∧ 0 ≤ e.length
  · rcases h with hsep | ⟨line, hline, hnone⟩ | ⟨line, hline, e, hread, hsign⟩ |
      ⟨line, hline, hnone⟩
    · exact absurd hsep hlists.1
    · obtain ⟨e, -, hread⟩ := exists_rel_of_mem hlists.2 hline
      exact absurd ⟨e, hread⟩ hnone
    · obtain ⟨e', hmem, hread'⟩ := exists_rel_of_mem hlists.2 hline
      have hsigns := hsigns e' hmem
      rw [hread.unique hread'] at hsign
      omega
    · obtain ⟨numbered, hmem, rfl⟩ := List.mem_map.mp hline
      have hdefect := Trace.exists_lineDefect_iff.mpr hnone
      obtain ⟨fault, hsample⟩ := exists_firstDefect_iff.mpr ⟨numbered, hmem, hdefect⟩
      exact ⟨fault, .sample hlists hsigns hsample⟩
  · obtain ⟨e, hmem, hsign⟩ : ∃ e ∈ entries, ¬ (0 ≤ e.start ∧ 0 ≤ e.length) := by
      simpa only [not_forall, exists_prop] using hsigns
    have hsign : e.start < 0 ∨ e.length < 0 := by omega
    have hdefect := Layout.exists_entryDefect_iff.mpr hsign
    obtain ⟨fault, hentry⟩ := exists_firstDefect_iff.mpr ⟨e, hmem, hdefect⟩
    exact ⟨fault, .entry hlists hentry⟩

theorem exists_rejected_iff :
    (∃ fault, Rejected separator listing trace fault) ↔ Defective separator listing trace := by
  constructor
  · rintro ⟨fault, h⟩
    exact defective_of_rejected h
  · intro h
    cases hread : Listing.read separator listing with
    | error fault =>
        rcases Listing.read_eq_error.mp hread with ⟨hsep, -⟩ | ⟨hsep, hline⟩
        · exact ⟨_, .separator hsep⟩
        · exact ⟨fault, .line hsep hline⟩
    | ok entries => exact exists_rejected_of_lists (read_eq_ok_iff_lists.mp hread) h

/-! ## Outcomes -/

theorem complete_of_ofTexts (h : (lines trace.toList).length ≤ 2 ^ 26 - 2) {a : Analysis}
    (ha : ofTexts name separator listing trace = .ok a) : Complete a := by
  simp only [ofTexts, bind_eq_ok] at ha
  obtain ⟨l, -, samples, hsamples, ha⟩ := ha
  have hle := (Trace.length_le_of_read hsamples).trans h
  obtain ⟨a', ha', hcomplete⟩ := exists_complete_ofSamples name l hle
  rwa [Except.ok.inj (ha.symm.trans ha')]

/-- Texts are turned down exactly if something is wrong with them, and then for the first thing
wrong; otherwise there is a complete analysis. -/
theorem ofTexts_outcome (name separator listing trace : String)
    (h : (lines trace.toList).length ≤ 2 ^ 26 - 2) :
    ((∃ fault, ofTexts name separator listing trace = .error fault) ↔
      Defective separator listing trace) ∧
    (∀ fault, ofTexts name separator listing trace = .error fault ↔
      Rejected separator listing trace fault) ∧
    (¬ Defective separator listing trace →
      ∃ a, ofTexts name separator listing trace = .ok a ∧ Complete a) := by
  have hfaults : (∃ fault, ofTexts name separator listing trace = .error fault) ↔
      Defective separator listing trace := by
    rw [← exists_rejected_iff]
    exact exists_congr fun fault => ofTexts_eq_error h
  refine ⟨hfaults, fun fault => ofTexts_eq_error h, ?_⟩
  intro hdefective
  cases ha : ofTexts name separator listing trace with
  | error fault => exact absurd (hfaults.mp ⟨fault, ha⟩) hdefective
  | ok a => exact ⟨a, rfl, complete_of_ofTexts h ha⟩

/-- A negative length is told before an address that is no number. -/
theorem ofTexts_outcome_negative_length :
    (lines "zz".toList).length ≤ 2 ^ 26 - 2 ∧
      ofTexts "order" "::" "f::0::-1" "zz" = .error (.negativeLength "f") := by
  have hlength : (lines "zz".toList).length ≤ 2 ^ 26 - 2 := by decide +kernel
  have hread : Listing.read "::" "f::0::-1" = .ok [⟨"f", 0, -1⟩] := by decide +kernel
  have hentry : FirstDefect Layout.EntryDefect [⟨"f", 0, -1⟩] (.negativeLength "f") :=
    firstDefect_cons.mpr (.inl (.length (by decide) (by decide)))
  refine ⟨hlength, ((ofTexts_outcome _ _ _ _ hlength).2.1 _).mpr ?_⟩
  exact .entry (Listing.read_eq_ok.mp hread) hentry

end VisitGraph.Analysis
