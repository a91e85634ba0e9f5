import VisitGraph.Command
import VisitGraph.FileTree
import VisitGraph.Proofs.Outcome
import VisitGraph.Proofs.Text.Seam

/-! # Newlines of input files

The text of a file is read with every return turned into a line feed, and is then cut at returns,
line feeds and eight other breaks. The first step leaves all lines where they are, empty ones
included. So a run does with its input files what it would do with their texts as they stand. -/

namespace VisitGraph

namespace Text

/-- The second text is the first one with every return, alone or together with the line feed behind
it, turned into one line feed. -/
inductive Unified : List Char → List Char → Prop where
  | nil : Unified [] []
  | pair {text unified} : Unified text unified →
      Unified ('\r' :: '\n' :: text) ('\n' :: unified)
  | alone {text unified} (h : text.head? ≠ some '\n') : Unified text unified →
      Unified ('\r' :: text) ('\n' :: unified)
  | other {c text unified} (h : c ≠ '\r') : Unified text unified →
      Unified (c :: text) (c :: unified)

theorem unifyNewlines_cons (c : Char) (text : List Char) :
    unifyNewlines (c :: text) =
      if c = '\r' ∧ text.head? = some '\n' then unifyNewlines text
      else (if c = '\r' then '\n' else c) :: unifyNewlines text := by
  rw [unifyNewlines, joinReturns_cons]
  split
  · rfl
  · simp [unifyNewlines]

theorem unified_unifyNewlines (text : List Char) : Unified text (unifyNewlines text) := by
  cases text with
  | nil => exact .nil
  | cons c text =>
      rw [unifyNewlines_cons]
      by_cases hc : c = '\r'
      · subst hc
        by_cases hfeed : text.head? = some '\n'
        · obtain ⟨text, rfl⟩ := List.head?_eq_some_iff.mp hfeed
          rw [if_pos ⟨rfl, rfl⟩, unifyNewlines_cons, if_neg (by simp), if_neg (by decide)]
          exact .pair (unified_unifyNewlines text)
        · rw [if_neg (fun h => hfeed h.2), if_pos rfl]
          exact .alone hfeed (unified_unifyNewlines text)
      · rw [if_neg (fun h => hc h.1), if_neg hc]
        exact .other hc (unified_unifyNewlines text)
termination_by text.length

theorem lines_feed_cons (text : List Char) : lines ('\n' :: text) = [] :: lines text := by
  rw [lines_cons, if_neg (by simp), if_pos (by decide)]

/-- Each return that is turned ends the same line as before. -/
theorem Unified.lines_eq {text unified : List Char} (h : Unified text unified) :
    lines unified = lines text := by
  induction h with
  | nil => rfl
  | pair _ ih => rw [lines_feed_cons, lines_cons '\r', if_pos ⟨rfl, rfl⟩, lines_feed_cons, ih]
  | alone hfeed _ ih =>
      rw [lines_feed_cons, lines_cons '\r', if_neg (fun h => hfeed h.2), if_pos (by decide), ih]
  | other hc _ ih => simp only [lines_cons, hc, false_and, if_false, ih]

end Text

open Text

/-! ## What is read line by line -/

/-- The texts have the same lines in the same places. -/
def SameLines (text text' : String) : Prop :=
  lines text.toList = lines text'.toList

theorem SameLines.filledLines_eq {text text' : String} (h : SameLines text text') :
    filledLines text.toList = filledLines text'.toList := by
  rw [Text.filledLines_eq, Text.filledLines_eq, h]

theorem SameLines.listing_eq {text text' : String} (h : SameLines text text')
    (separator : String) : Listing.read separator text = Listing.read separator text' := by
  rw [Listing.read, Listing.read, h.filledLines_eq]

theorem SameLines.trace_eq {text text' : String} (h : SameLines text text') :
    Trace.read text = Trace.read text' := by
  rw [Trace.read, Trace.read, h.filledLines_eq]

theorem Text.Unified.sameLines {text unified : List Char} (h : Unified text unified) :
    SameLines (String.ofList unified) (String.ofList text) := by
  rw [SameLines, String.toList_ofList, String.toList_ofList]
  exact h.lines_eq

section

variable {listing listing' trace trace' : String}

theorem Analysis.ofTexts_eq_of_sameLines (hlisting : SameLines listing listing')
    (htrace : SameLines trace trace') (name separator : String) :
    ofTexts name separator listing trace = ofTexts name separator listing' trace' := by
  rw [ofTexts, ofTexts, Listing.readLayout, Listing.readLayout, hlisting.listing_eq,
    htrace.trace_eq]

theorem Notice.ofTexts_eq_of_sameLines (hlisting : SameLines listing listing')
    (htrace : SameLines trace trace') (name separator : String) :
    ofTexts name separator listing trace = ofTexts name separator listing' trace' := by
  rw [ofTexts, ofTexts, Listing.readLayout, Listing.readLayout, hlisting.listing_eq,
    htrace.trace_eq]

end

namespace Command

/-! ## Runs on files -/

section

variable {m : Type → Type} [Monad m] [Disk m]

/-- What a run does once it has the texts of its inputs. -/
def runOnTexts (s : Settings) (trace : Route) (listing samples : String) : m Ending :=
  let story := told s fun _ =>
    .reading s.functions trace :: Notice.ofTexts s.shownGraphName s.separator listing samples
  match Analysis.ofTexts s.graphName s.separator listing samples with
  | .error fault => return ⟨.refused (faultMessage fault), story⟩
  | .ok a => writeOutputs s (.ofSettings s trace) story a

theorem runOn_eq (s : Settings) (trace : Route) :
    (runOn s trace : m Ending) = (do
      match ← readInputs s.functions trace with
      | .error outcome => return ⟨outcome, told s fun _ => [.reading s.functions trace]⟩
      | .ok (listing, samples) => runOnTexts s trace listing samples) := rfl

theorem runOnTexts_eq_of_sameLines {listing listing' samples samples' : String}
    (hlisting : SameLines listing listing') (hsamples : SameLines samples samples') (s : Settings)
    (trace : Route) :
    (runOnTexts s trace listing samples : m Ending) = runOnTexts s trace listing' samples' := by
  rw [runOnTexts, runOnTexts, Analysis.ofTexts_eq_of_sameLines hlisting hsamples,
    Notice.ofTexts_eq_of_sameLines hlisting hsamples]

end

/-- The route leads to a file whose bytes are this text, its newlines as they stand. -/
def Stands (t : FileTree) (r : Route) (text : List Char) : Prop :=
  ∃ bytes, t.read r = .ok bytes ∧ Utf8.decode bytes = .ok text

variable {t : FileTree}

theorem run_readInput_of_stands {r : Route} {text : List Char} (h : Stands t r text) :
    (readInput r : StateM FileTree _).run t = (.ok (String.ofList (unifyNewlines text)), t) := by
  obtain ⟨bytes, hread, hdecode⟩ := h
  have hrun : (Disk.read r : StateM FileTree _).run t = (.ok bytes, t) := by
    rw [← hread]
    rfl
  rw [readInput, run_bind_of_run hrun]
  simp only [textOfBytes, hdecode]
  rfl

theorem run_readInputs_of_stands {functions trace : Route} {listing samples : List Char}
    (hlisting : Stands t functions listing) (hsamples : Stands t trace samples) :
    (readInputs functions trace : StateM FileTree _).run t =
      (.ok (String.ofList (unifyNewlines listing), String.ofList (unifyNewlines samples)), t) := by
  rw [readInputs, run_bind_of_run (run_readInput_of_stands hlisting)]
  exact run_bind_of_run (run_readInput_of_stands hsamples)

/-- What is read from two files that stand for texts with any newlines. The newlines are unified,
but the lines keep their places; so the records, the addresses, the analysis with its complaints,
and all that a run does are the same as for the texts as they stand. -/
structure ReadAlike (t : FileTree) (functions trace : Route) (listing samples : List Char)
    (listing' samples' : String) : Prop where
  read : (readInputs functions trace : StateM FileTree _).run t = (.ok (listing', samples'), t)
  unified : Unified listing listing'.toList ∧ Unified samples samples'.toList
  lines : lines listing'.toList = lines listing ∧ lines samples'.toList = lines samples
  records : ∀ separator, Listing.read separator listing' =
    Listing.read separator (String.ofList listing)
  addresses : Trace.read samples' = Trace.read (String.ofList samples)
  analysis : ∀ name separator, Analysis.ofTexts name separator listing' samples' =
    Analysis.ofTexts name separator (String.ofList listing) (String.ofList samples)
  course : ∀ s : Settings, s.functions = functions →
    (runOn s trace : StateM FileTree Ending).run t =
      (runOnTexts s trace (String.ofList listing) (String.ofList samples) :
        StateM FileTree Ending).run t

/-- The mixture of newlines in the input files does not matter. -/
theorem readInputs_newlines {functions trace : Route} {listing samples : List Char}
    (hlisting : Stands t functions listing) (hsamples : Stands t trace samples) :
    ∃ listing' samples', ReadAlike t functions trace listing samples listing' samples' := by
  have hread := run_readInputs_of_stands hlisting hsamples
  have hunified := unified_unifyNewlines listing
  have hunified' := unified_unifyNewlines samples
  refine ⟨String.ofList (unifyNewlines listing), String.ofList (unifyNewlines samples), ?_⟩
  constructor
  · exact hread
  · rw [String.toList_ofList, String.toList_ofList]
    exact ⟨hunified, hunified'⟩
  · rw [String.toList_ofList, String.toList_ofList]
    exact ⟨hunified.lines_eq, hunified'.lines_eq⟩
  · exact hunified.sameLines.listing_eq
  · exact hunified'.sameLines.trace_eq
  · exact Analysis.ofTexts_eq_of_sameLines hunified.sameLines hunified'.sameLines
  · rintro s rfl
    rw [runOn_eq, run_bind_of_run hread,
      ← runOnTexts_eq_of_sameLines hunified.sameLines hunified'.sameLines]

/-- Returns and line feeds in several orders, before a line that cannot be cut. -/
theorem readInputs_newlines_mixed :
    let listing := "f::0::f\r\r\ng::10::f\n\rzz"
    let samples := "3\r\r\n12\n"
    let t : FileTree := ⟨[], ⟨[(["f"], .file (Utf8.encode listing)),
      (["t"], .file (Utf8.encode samples))]⟩⟩
    Stands t (.ofString "f") listing.toList ∧ Stands t (.ofString "t") samples.toList ∧
      ∃ listing' samples',
        ReadAlike t (.ofString "f") (.ofString "t") listing.toList samples.toList listing'
          samples' ∧
        Analysis.ofTexts "G" "::" listing' samples' = .error (.malformedLine 5 "::" "zz") := by
  intro listing samples t
  have hlisting : Stands t (.ofString "f") listing.toList := ⟨_, rfl, by decide +kernel⟩
  have hsamples : Stands t (.ofString "t") samples.toList := ⟨_, rfl, by decide +kernel⟩
  have hfault : Listing.read "::" "f::0::f\r\r\ng::10::f\n\rzz" =
      .error (.malformedLine 5 "::" "zz") := rfl
  obtain ⟨listing', samples', halike⟩ := readInputs_newlines hlisting hsamples
  refine ⟨hlisting, hsamples, listing', samples', halike, ?_⟩
  rw [halike.analysis, String.ofList_toList, Analysis.ofTexts, Listing.readLayout, hfault]
  rfl

end Command

end VisitGraph
