import Std.Data.String.ToInt
import VisitGraph.Proofs.Text.Words

/-! # Reading a report

The report on the statistics puts names, which come from outside, between fixed words. It can be
read all the same, word by word, because a name has no blanks in it and the fixed words around it
do. -/

namespace VisitGraph.Printout

open Text

/-- What a report tells: mean and spread as they are written, the call counts, and the phrases about
those that stand out, each with id and name. -/
structure Report where
  mean : String
  spread : String
  counts : List (String × String × Int)
  bands : List (String × String × String)
  deriving DecidableEq, Repr

/-- Reads the line about mean and spread. -/
def readSummary? (line : String) : Option (String × String) :=
  match wordsOf line with
  | ["Average", "calls:", mean, "standard", "deviation:", spread] =>
    (between? "" "," mean).map (·, spread)
  | _ => none

/-- Reads a line about a call count. -/
def readCount? (line : String) : Option (String × String × Int) :=
  match wordsOf line with
  | ["Node", "nr.", id, name, "called", "count:", count] => do
    return (id, ← between? "(" ")," name, ← count.toInt?)
  | _ => none

/-- Reads a line about a node that stands out. -/
def readBand? (line : String) : Option (String × String × String) :=
  match wordsOf line with
  | "Node" :: "nr." :: id :: name :: "is" :: "called" :: phrase => do
    return (id, ← between? "(" ")," name, ← between? "" "." (" ".intercalate phrase))
  | _ => none

/-- Reads a report: the first line, then those of the others that are about call counts and those
that are about nodes that stand out. -/
def readReport? (text : String) : Option Report :=
  match linesOf text with
  | [] => none
  | first :: rest => (readSummary? first).map fun (mean, spread) =>
    ⟨mean, spread, rest.filterMap readCount?, rest.filterMap readBand?⟩

/-! ## The words of each line -/

/-- A routine whose id and name are single words. -/
structure Named (r : Routine) : Prop where
  id : Solid r.id
  name : Solid r.name

/-- The words in front of what is told about a routine. -/
def leadOf (r : Routine) : List String :=
  ["Node", "nr.", r.id, "(" ++ r.name ++ "),"]

/-- The words of the line about mean and spread. -/
def summaryWords (mean spread : String) : List String :=
  ["Average", "calls:", mean ++ ",", "standard", "deviation:", spread]

/-- The words of the line about a call count. -/
def countWords (s : Statistics) (r : Routine) : List String :=
  leadOf r ++ ["called", "count:", toString (s.callsOf r.id)]

/-- The words of the line about a routine in a band. -/
def bandWords (r : Routine) (band : Band) : List String :=
  leadOf r ++ ["is", "called"] ++ wordsOf (band.phrase ++ ".")

/-- The line about mean and spread. -/
def summaryLine (mean spread : String) : String :=
  s!"Average calls: {mean}, standard deviation: {spread}"

/-- The line about a routine in a band. -/
def bandLine (r : Routine) (band : Band) : String :=
  s!"Node nr. {r.id} ({r.name}), is called {band.phrase}."

theorem bandLine?_eq (s : Statistics) (r : Routine) :
    bandLine? s r = (s.bandOf r.id).map (bandLine r) := rfl

theorem summaryLine_eq (mean spread : String) :
    summaryLine mean spread = " ".intercalate (summaryWords mean spread) := by
  -- Stating the equation of this definition would compare its literals character by character.
  delta summaryLine
  apply String.toList_injective
  simp [toString, summaryWords]

theorem countLine_eq (s : Statistics) (r : Routine) :
    countLine s r = " ".intercalate (countWords s r) := by
  apply String.toList_injective
  simp [toString, countLine, countWords, leadOf]

theorem bandLine_eq (r : Routine) (band : Band) :
    bandLine r band = " ".intercalate (bandWords r band) := by
  rw [bandWords, String.intercalate_append_of_ne_nil (by simp) (wordsOf_ne_nil _),
    intercalate_wordsOf]
  delta bandLine
  apply String.toList_injective
  simp [toString, leadOf]

theorem Named.solid_leadOf {r : Routine} (h : Named r) : ∀ w ∈ leadOf r, Solid w := by
  have hname : Solid ("(" ++ r.name ++ "),") :=
    (Solid.append (by decide) h.name).append (by decide)
  simp only [leadOf, List.forall_mem_cons]
  exact ⟨by decide, by decide, h.id, hname, by simp⟩

theorem solid_summaryWords {mean spread : String} (hmean : Plain mean.toList)
    (hspread : Plain spread.toList) : ∀ w ∈ summaryWords mean spread, Solid w := by
  have hcomma : Solid (mean ++ ",") := (solid_of_plain hmean).append (by decide)
  simp only [summaryWords, List.forall_mem_cons]
  exact ⟨by decide, by decide, hcomma, by decide, by decide, solid_of_plain hspread, by simp⟩

theorem Named.solid_countWords {r : Routine} (h : Named r) (s : Statistics) :
    ∀ w ∈ countWords s r, Solid w := by
  have hcount : Solid (toString (s.callsOf r.id)) := solid_of_plain (plain_toString _)
  refine List.forall_mem_append.mpr ⟨h.solid_leadOf, ?_⟩
  simp only [List.forall_mem_cons]
  exact ⟨by decide, by decide, hcount, by simp⟩

theorem Named.solid_bandWords {r : Routine} (h : Named r) (band : Band) :
    ∀ w ∈ bandWords r band, Solid w := by
  refine List.forall_mem_append.mpr ⟨List.forall_mem_append.mpr ⟨h.solid_leadOf, by decide⟩, ?_⟩
  cases band <;> decide

/-! ## Each line read back -/

theorem readSummary?_summaryLine {mean spread : String} (hmean : Plain mean.toList)
    (hspread : Plain spread.toList) :
    readSummary? (summaryLine mean spread) = some (mean, spread) := by
  rw [readSummary?, summaryLine_eq,
    wordsOf_intercalate (solid_summaryWords hmean hspread) (by simp [summaryWords]), summaryWords]
  simp only [between?_back, Option.map_some]

variable {r : Routine}

theorem Named.wordsOf_countLine (h : Named r) (s : Statistics) :
    wordsOf (countLine s r) = countWords s r := by
  rw [countLine_eq, wordsOf_intercalate (h.solid_countWords s) (by simp [countWords])]

theorem Named.wordsOf_bandLine (h : Named r) (band : Band) :
    wordsOf (bandLine r band) = bandWords r band := by
  rw [bandLine_eq, wordsOf_intercalate (h.solid_bandWords band) (by simp [bandWords, leadOf])]

theorem Named.readCount?_countLine (h : Named r) (s : Statistics) :
    readCount? (countLine s r) = some (r.id, r.name, s.callsOf r.id) := by
  have hcount : (s.callsOf r.id).repr.toInt? = some (s.callsOf r.id) := Int.toInt?_repr _
  rw [readCount?, h.wordsOf_countLine, countWords, leadOf]
  simp [between?_append, hcount]

theorem Named.readBand?_countLine (h : Named r) (s : Statistics) :
    readBand? (countLine s r) = none := by
  rw [readBand?, h.wordsOf_countLine]
  rfl

theorem Named.readBand?_bandLine (h : Named r) (band : Band) :
    readBand? (bandLine r band) = some (r.id, r.name, band.phrase) := by
  rw [readBand?, h.wordsOf_bandLine, bandWords, leadOf]
  simp [between?_append, intercalate_wordsOf, between?_back]

theorem Named.readCount?_bandLine (h : Named r) (band : Band) :
    readCount? (bandLine r band) = none := by
  rw [readCount?, h.wordsOf_bandLine]
  cases band <;> rfl

/-! ## The report read back -/

/-- The lines of the report about some routines. -/
def reportLines (mean spread : String) (s : Statistics) (routines : List Routine) : List String :=
  summaryLine mean spread ::
    routines.map (countLine s) ++ routines.filterMap (bandLine? s)

/-- What the report about some routines tells. -/
def reportOf (mean spread : String) (s : Statistics) (routines : List Routine) : Report where
  mean := mean
  spread := spread
  counts := routines.map fun r => (r.id, r.name, s.callsOf r.id)
  bands := routines.filterMap fun r => (s.bandOf r.id).map fun band => (r.id, r.name, band.phrase)

variable {s : Statistics} {routines : List Routine}

theorem unbroken_reportLines {mean spread : String} (hmean : Plain mean.toList)
    (hspread : Plain spread.toList) (h : ∀ r ∈ routines, Named r) :
    ∀ line ∈ reportLines mean spread s routines, Unbroken line := by
  have hcounts : ∀ line ∈ routines.map (countLine s), Unbroken line := by
    refine List.forall_mem_map.mpr fun r hr => ?_
    rw [countLine_eq]
    exact unbroken_intercalate ((h r hr).solid_countWords s)
  have hbands : ∀ line ∈ routines.filterMap (bandLine? s), Unbroken line := by
    intro line hline
    obtain ⟨r, hr, hband⟩ := List.mem_filterMap.mp hline
    rw [bandLine?_eq] at hband
    obtain ⟨band, -, rfl⟩ := Option.map_eq_some_iff.mp hband
    rw [bandLine_eq]
    exact unbroken_intercalate ((h r hr).solid_bandWords band)
  rw [reportLines, summaryLine_eq, List.cons_append, List.forall_mem_cons]
  exact ⟨unbroken_intercalate (solid_summaryWords hmean hspread),
    List.forall_mem_append.mpr ⟨hcounts, hbands⟩⟩

/-- The lines about call counts are read as such, and no other line is. -/
theorem filterMap_readCount? (h : ∀ r ∈ routines, Named r) :
    (routines.map (countLine s) ++ routines.filterMap (bandLine? s)).filterMap readCount? =
      routines.map fun r => (r.id, r.name, s.callsOf r.id) := by
  have hcounts : (routines.map (countLine s)).filterMap readCount? =
      routines.map fun r => (r.id, r.name, s.callsOf r.id) := by
    rw [List.filterMap_map, ← List.filterMap_eq_map]
    refine List.filterMap_congr fun r hr => ?_
    rw [Function.comp_apply, (h r hr).readCount?_countLine]
    rfl
  have hbands : (routines.filterMap (bandLine? s)).filterMap readCount? = [] := by
    rw [List.filterMap_filterMap, List.filterMap_eq_nil_iff]
    intro r hr
    rw [bandLine?_eq, Option.bind_map]
    cases s.bandOf r.id with
    | none => rfl
    | some band => rw [Option.bind_some, Function.comp_apply, (h r hr).readCount?_bandLine]
  rw [List.filterMap_append, hcounts, hbands, List.append_nil]

/-- The lines about routines that stand out are read as such, and no other line is. -/
theorem filterMap_readBand? (h : ∀ r ∈ routines, Named r) :
    (routines.map (countLine s) ++ routines.filterMap (bandLine? s)).filterMap readBand? =
      routines.filterMap fun r =>
        (s.bandOf r.id).map fun band => (r.id, r.name, band.phrase) := by
  have hcounts : (routines.map (countLine s)).filterMap readBand? = [] := by
    rw [List.filterMap_map, List.filterMap_eq_nil_iff]
    intro r hr
    rw [Function.comp_apply, (h r hr).readBand?_countLine]
  rw [List.filterMap_append, hcounts, List.nil_append, List.filterMap_filterMap]
  refine List.filterMap_congr fun r hr => ?_
  rw [bandLine?_eq, Option.bind_map]
  cases s.bandOf r.id with
  | none => rfl
  | some band =>
      rw [Option.bind_some, Function.comp_apply, (h r hr).readBand?_bandLine, Option.map_some]

theorem readReport?_ofLines {mean spread : String} (hmean : Plain mean.toList)
    (hspread : Plain spread.toList) (h : ∀ r ∈ routines, Named r) :
    readReport? (ofLines (reportLines mean spread s routines)) =
      some (reportOf mean spread s routines) := by
  rw [readReport?, linesOf_ofLines (unbroken_reportLines hmean hspread h), reportLines,
    List.cons_append]
  dsimp only
  rw [readSummary?_summaryLine hmean hspread, Option.map_some, filterMap_readCount? h,
    filterMap_readBand? h]
  rfl

end VisitGraph.Printout
