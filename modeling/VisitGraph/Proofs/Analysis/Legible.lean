import VisitGraph.Proofs.Analysis.Outliers
import VisitGraph.Proofs.Listing.Reading
import VisitGraph.Proofs.Printout.Adjacency
import VisitGraph.Proofs.Printout.Report

/-! # Legible printouts

Names come from the listing and are printed as they stand. They are words of the listing, so that no
blank is in them whatever else is; ids and numbers have no blanks either. Hence all that an analysis
prints can be read back from the printout. -/

namespace VisitGraph.Analysis

open Text Printout

/-- What the report on an analysis tells. -/
def report (a : Analysis) : Except Fault Report := do
  let mean ← a.statistics.mean.plainText
  let spread ← a.statistics.spread.plainText
  return reportOf mean spread a.statistics a.distinct

/-- The printouts of an analysis have the lines they should have, and all that they tell is read
from them. -/
structure Legible (a : Analysis) : Prop where
  sequence : linesOf a.sequenceText = a.itinerary.map (·.id)
  statistics : ∃ text report, a.statisticsText = .ok text ∧ a.report = .ok report ∧
    (linesOf text).length = 1 + a.diagram.nodes.length + a.statistics.outliers.length ∧
    readReport? text = some report
  adjacency : ∃ text rows, a.adjacencyText = .ok text ∧ rowsOf a.transitions = .ok rows ∧
    (linesOf text).length = 2 * a.diagram.nodes.length ∧ readAdjacency? text = some rows

/-! ## Names and ids -/

theorem named_boundary : Named .start ∧ Named .exit :=
  ⟨⟨by decide, by decide⟩, ⟨by decide, by decide⟩⟩

theorem named_of_readLayout {separator listing : String} {l : Layout}
    (h : Listing.readLayout separator listing = .ok l) : ∀ r ∈ l.routines, Named r := by
  intro r hr
  obtain ⟨entries, hread, hload⟩ := bind_eq_ok.mp h
  constructor
  · exact solid_of_plain (Layout.plain_id_of_load hload hr)
  · rw [← (Layout.load_eq_ok.mp hload).2] at hr
    obtain ⟨⟨id, e⟩, hmem, rfl⟩ := List.mem_map.mp hr
    obtain ⟨line, -, start, length, hcut, -⟩ :=
      exists_rel_of_mem (Listing.read_eq_ok.mp hread).2.flip (List.of_mem_zip hmem).2
    exact hcut.first_isWord.2

variable {first : Int} {entries : List Entry} {l : Layout} {name : String} {samples : List Int}
  {a : Analysis}

theorem named_of_mem_ofTrace (h : ∀ r ∈ l.routines, Named r) :
    ∀ r ∈ Itinerary.ofTrace l samples, Named r := by
  rw [Itinerary.ofTrace_eq, List.cons_append, List.forall_mem_cons, List.forall_mem_append,
    List.forall_mem_singleton]
  exact ⟨named_boundary.1, fun r hr => h r (Itinerary.mem_routines_of_mem_interior hr),
    named_boundary.2⟩

theorem solid_of_mem_visits (h : ∀ r ∈ l.routines, Named r) :
    ∀ id ∈ visits l samples, Solid id :=
  List.forall_mem_map.mpr fun r hr => (named_of_mem_ofTrace h r hr).id

/-- The rows of an analysis are made of ids and shares. -/
theorem worded_of_rowsOf {ids : List String} (hids : ∀ id ∈ ids, Solid id) {rows : List Row}
    (h : rowsOf (Transition.ofVisits ids) = .ok rows) : ∀ row ∈ rows, Worded row := by
  intro row hrow
  obtain ⟨⟨source, ts⟩, hentry, hrowOf⟩ := exists_rel_of_mem (mapM_eq_ok.mp h).flip hrow
  rw [Transition.ofVisits_eq] at hentry
  obtain ⟨source, hsource, heq⟩ := List.mem_map.mp hentry
  obtain ⟨rfl, rfl⟩ := Prod.mk.inj heq
  obtain ⟨targets, htargets, hrow⟩ := bind_eq_ok.mp hrowOf
  obtain rfl := pure_eq_ok.mp hrow
  refine ⟨hids source (List.mem_eraseDups.mp hsource), ?_⟩
  intro target htarget
  obtain ⟨t, ht, hlabelled⟩ := exists_rel_of_mem (mapM_eq_ok.mp htargets).flip htarget
  obtain ⟨label, hlabel, hpair⟩ := bind_eq_ok.mp hlabelled
  obtain rfl := pure_eq_ok.mp hpair
  have hfollows := Transition.mem_followers.mp (Transition.shares_of_mem_leaving ht).followed
  exact ⟨hids t.target (List.mem_of_mem_tail (List.of_mem_zip hfollows).2),
    solid_of_plain (Numeric.Quantity.plain_shareText hlabel)⟩

/-! ## The printouts -/

theorem linesOf_sequenceText (h : ∀ r ∈ l.routines, Named r) (ha : Parts name l samples a) :
    linesOf a.sequenceText = a.itinerary.map (·.id) := by
  rw [sequenceText, Printout.sequence]
  refine linesOf_ofLines (List.forall_mem_map.mpr fun r hr => ?_)
  rw [ha.itinerary] at hr
  exact (named_of_mem_ofTrace h r hr).id.unbroken

theorem length_nodes (ha : Parts name l samples a) :
    a.diagram.nodes.length = a.distinct.length := by
  rw [(Diagram.assemble_eq_ok.mp ha.diagram).2.1, List.length_map]

/-- One line of the report for each node that stands out. -/
theorem length_bandLines (hload : Layout.load first entries = .ok l) (ha : Parts name l samples a) :
    (a.distinct.filterMap (bandLine? a.statistics)).length = a.statistics.outliers.length := by
  obtain ⟨told, -, htold, hlines⟩ := exists_told hload ha
  have hlength := congrArg List.length htold
  rw [List.length_map] at hlength
  rw [hlines, Statistics.outliers_of_ofVisits ha.statistics, List.length_map, List.length_map,
    hlength]

/-- One row of the table for each node. -/
theorem length_rows (hload : Layout.load first entries = .ok l) (ha : Parts name l samples a)
    {rows : List Row} (hrows : rowsOf a.transitions = .ok rows) :
    rows.length = a.diagram.nodes.length := by
  have hordered := ordered_of_parts hload ha
  calc rows.length = a.transitions.entries.length := (mapM_eq_ok.mp hrows).length_eq.symm
    _ = a.transitions.keys.length := (List.length_map _).symm
    _ = (a.diagram.nodes.map (·.id)).length := by rw [hordered.transitions, hordered.nodes]
    _ = a.diagram.nodes.length := List.length_map _

theorem legible_statistics (hload : Layout.load first entries = .ok l)
    (h : ∀ r ∈ l.routines, Named r) (ha : Parts name l samples a) :
    ∃ text report, a.statisticsText = .ok text ∧ a.report = .ok report ∧
      (linesOf text).length = 1 + a.diagram.nodes.length + a.statistics.outliers.length ∧
      readReport? text = some report := by
  obtain ⟨mean, spread, hmean, hspread⟩ := Statistics.exists_real_of_ofVisits ha.statistics
  have hnamed : ∀ r ∈ a.distinct, Named r := by
    intro r hr
    rw [ha.distinct, List.mem_eraseDups] at hr
    exact named_of_mem_ofTrace h r hr
  have hplain := Numeric.Binary64.plain_plainText
  refine ⟨ofLines (reportLines mean.plainText spread.plainText a.statistics a.distinct),
    reportOf mean.plainText spread.plainText a.statistics a.distinct,
    statisticsText_eq ha hmean hspread, by rw [report, hmean, hspread]; rfl, ?_,
    readReport?_ofLines (hplain mean) (hplain spread) hnamed⟩
  rw [linesOf_ofLines (unbroken_reportLines (hplain mean) (hplain spread) hnamed), reportLines,
    List.length_append, List.length_cons, List.length_map, length_bandLines hload ha,
    length_nodes ha]
  omega

theorem legible_adjacency (hload : Layout.load first entries = .ok l)
    (h : ∀ r ∈ l.routines, Named r) (ha : Parts name l samples a) :
    ∃ text rows, a.adjacencyText = .ok text ∧ rowsOf a.transitions = .ok rows ∧
      (linesOf text).length = 2 * a.diagram.nodes.length ∧ readAdjacency? text = some rows := by
  obtain ⟨text, htext⟩ : Succeeds a.adjacencyText := by
    rw [adjacencyText, ha.transitions]
    exact Transition.succeeds_adjacency _
  have hadjacency := htext
  rw [adjacencyText, adjacency_eq, map_eq_ok] at hadjacency
  obtain ⟨rows, hrows, rfl⟩ := hadjacency
  have hworded : ∀ row ∈ rows, Worded row := by
    rw [ha.transitions] at hrows
    exact worded_of_rowsOf (solid_of_mem_visits h) hrows
  refine ⟨_, rows, htext, hrows, ?_, readAdjacency?_ofLines hworded⟩
  rw [linesOf_ofLines (unbroken_rowLines hworded), length_rowLines, length_rows hload ha hrows]

theorem legible_of_ofTexts {separator listing trace : String}
    (h : ofTexts name separator listing trace = .ok a) : Legible a := by
  simp only [ofTexts, bind_eq_ok] at h
  obtain ⟨l, hlayout, samples, -, ha⟩ := h
  have hnamed := named_of_readLayout hlayout
  obtain ⟨entries, -, hload⟩ := bind_eq_ok.mp hlayout
  have hparts := parts_of_ofSamples ha
  exact ⟨linesOf_sequenceText hnamed hparts, legible_statistics hload hnamed hparts,
    legible_adjacency hload hnamed hparts⟩

/-! ## Two analyses -/

variable {a' : Analysis}

theorem Legible.report_eq (h : Legible a) (h' : Legible a')
    (htext : a.statisticsText = a'.statisticsText) : a.report = a'.report := by
  obtain ⟨text, report, hok, hreport, -, hread⟩ := h.statistics
  obtain ⟨text', report', hok', hreport', -, hread'⟩ := h'.statistics
  obtain rfl := Except.ok.inj (hok.symm.trans (htext.trans hok'))
  obtain rfl := Option.some.inj (hread.symm.trans hread')
  rw [hreport, hreport']

theorem Legible.rows_eq (h : Legible a) (h' : Legible a')
    (htext : a.adjacencyText = a'.adjacencyText) :
    rowsOf a.transitions = rowsOf a'.transitions := by
  obtain ⟨text, rows, hok, hrows, -, hread⟩ := h.adjacency
  obtain ⟨text', rows', hok', hrows', -, hread'⟩ := h'.adjacency
  obtain rfl := Except.ok.inj (hok.symm.trans (htext.trans hok'))
  obtain rfl := Option.some.inj (hread.symm.trans hread')
  rw [hrows, hrows']

/-- The printouts of every analysis can be read back, and so two analyses with the same printout
agree in all that it tells. -/
theorem ofTexts_legible {name separator listing trace : String} {a : Analysis}
    (h : ofTexts name separator listing trace = .ok a) :
    Legible a ∧ ∀ name' separator' listing' trace' a',
      ofTexts name' separator' listing' trace' = .ok a' →
        (a.sequenceText = a'.sequenceText →
          a.itinerary.map (·.id) = a'.itinerary.map (·.id)) ∧
        (a.statisticsText = a'.statisticsText → a.report = a'.report) ∧
        (a.adjacencyText = a'.adjacencyText →
          rowsOf a.transitions = rowsOf a'.transitions) := by
  have hlegible := legible_of_ofTexts h
  refine ⟨hlegible, ?_⟩
  intro name' separator' listing' trace' a' h'
  have hlegible' := legible_of_ofTexts h'
  refine ⟨?_, hlegible.report_eq hlegible', hlegible.rows_eq hlegible'⟩
  intro htext
  rw [← hlegible.sequence, ← hlegible'.sequence, htext]

/-- A name that looks like the text around it. -/
theorem ofTexts_legible_lookalike :
    ∃ a, ofTexts "lookalike" "::" "(f),called::0::f\ncount:),::10::f" "3\n12\n4" = .ok a ∧
      Legible a := by
  have hlayout : Listing.readLayout "::" "(f),called::0::f\ncount:),::10::f" =
      .ok ⟨[⟨"1", "(f),called", some 0, some 15⟩, ⟨"2", "count:),", some 16, some 31⟩]⟩ := by
    decide +kernel
  have htrace : Trace.read "3\n12\n4" = .ok [3, 18, 4] := by decide +kernel
  have hlength : [(3 : Int), 18, 4].length ≤ 2 ^ 26 - 2 := by decide
  obtain ⟨a, ha⟩ := exists_ofSamples "lookalike"
    ⟨[⟨"1", "(f),called", some 0, some 15⟩, ⟨"2", "count:),", some 16, some 31⟩]⟩ hlength
  have hok : ofTexts "lookalike" "::" "(f),called::0::f\ncount:),::10::f" "3\n12\n4" = .ok a := by
    rw [ofTexts, hlayout, htrace]
    exact ha
  exact ⟨a, hok, (ofTexts_legible hok).1⟩

end VisitGraph.Analysis
