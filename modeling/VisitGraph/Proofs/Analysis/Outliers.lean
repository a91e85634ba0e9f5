import VisitGraph.Proofs.Analysis.Order
import VisitGraph.Proofs.Statistics.Banding

/-! # Nodes that stand out

The nodes that stand out are told in many places, each of which finds them in its own way. All of
them tell the same nodes in the same order, and of each node the one band that its call count falls
into. -/

namespace VisitGraph.Analysis

/-- Everything that an analysis tells of the nodes that stand out, given these nodes with their
bands: the statistics, the diagram with its summary, the rows, the report and its short form. -/
structure Presents (a : Analysis) (marked : List (String × Band)) : Prop where
  classified : ∀ id ∈ a.statistics.calls.keys,
    Band.classify (.int (a.statistics.callsOf id)) a.statistics.mean a.statistics.spread =
      .ok (marked.lookup id)
  bands : a.statistics.bands.entries = marked
  outliers : a.statistics.outliers = marked.map Prod.fst
  nodes : (a.diagram.nodes.filter (·.bold)).map (fun n => (n.id, n.color)) =
    marked.map fun (id, band) => (id, band.color)
  plain : ∀ n ∈ a.diagram.nodes, n.id ∉ marked.map Prod.fst →
    n.color = Node.plainColor ∧ n.bold = false
  highlighted : a.diagram.summaryLines =
    s!"graph {a.diagram.name}: {a.diagram.nodes.length} nodes, {a.diagram.arrows.length} edges" ::
      if marked = [] then []
      else ["- highlighted nodes: " ++ ", ".intercalate (marked.map Prod.fst)]
  rows : (a.statistics.rows.filterMap fun (id, _, band?) =>
      band?.map fun band => (id, band.label)) =
    marked.map fun (id, band) => (id, band.label)
  report : ∃ mean spread, ∃ told : List (Routine × Band),
    a.statistics.mean.plainText = .ok mean ∧ a.statistics.spread.plainText = .ok spread ∧
      (told.map Prod.fst).Sublist a.distinct ∧
      told.map (fun (r, band) => (r.id, band)) = marked ∧
      a.statisticsText = .ok (Printout.ofLines
        (s!"Average calls: {mean}, standard deviation: {spread}" ::
          a.distinct.map (Printout.countLine a.statistics) ++
            told.map fun (r, band) => s!"Node nr. {r.id} ({r.name}), is called {band.phrase}."))
  summary : ∃ mean spread,
    a.statistics.mean.fixedText = .ok mean ∧ a.statistics.spread.fixedText = .ok spread ∧
      a.statistics.summary = .ok
        s!"nodes={a.statistics.calls.size} mean={mean} dispersion={spread} outliers={marked.length}"

variable {first : Int} {entries : List Entry} {l : Layout} {name : String} {samples : List Int}
  {a : Analysis}

/-- What is told of each routine with its band is told of the recorded bands. -/
theorem filterMap_distinct {γ : Type} (h : Layout.load first entries = .ok l)
    (ha : Parts name l samples a) (f : String → Band → γ) :
    (a.distinct.filterMap fun r => (a.statistics.bandOf r.id).map (f r.id)) =
      a.statistics.bands.entries.map fun (id, band) => f id band := by
  have hordered := ordered_of_parts h ha
  rw [← Statistics.filterMap_bandOf ha.statistics, hordered.calls, ← hordered.distinct,
    List.filterMap_map]
  rfl

/-! ## The diagram -/

theorem filter_bold_nodes (h : Layout.load first entries = .ok l) (ha : Parts name l samples a) :
    (a.diagram.nodes.filter (·.bold)).map (fun n => (n.id, n.color)) =
      a.statistics.bands.entries.map fun (id, band) => (id, band.color) := by
  obtain ⟨-, hnodes, -⟩ := Diagram.assemble_eq_ok.mp ha.diagram
  have hcolor : ∀ r band, a.statistics.bandOf r.id = some band →
      ((Node.ofRoutine a.statistics r).id, (Node.ofRoutine a.statistics r).color) =
        (r.id, band.color) := by
    intro r band hband
    simp [Node.ofRoutine, hband]
  rw [← filterMap_distinct h ha fun id band => (id, band.color), ← map_filter_isSome hcolor, hnodes,
    List.filter_map, List.map_map]
  rfl

theorem plain_of_mem_nodes (h : Layout.load first entries = .ok l) (ha : Parts name l samples a)
    {n : Node} (hn : n ∈ a.diagram.nodes)
    (hid : n.id ∉ a.statistics.bands.entries.map Prod.fst) :
    n.color = Node.plainColor ∧ n.bold = false := by
  obtain ⟨-, hnodes, -⟩ := Diagram.assemble_eq_ok.mp ha.diagram
  rw [hnodes] at hn
  obtain ⟨r, hr, rfl⟩ := List.mem_map.mp hn
  cases hband : a.statistics.bandOf r.id with
  | none => simp [Node.ofRoutine, hband]
  | some band =>
      rw [← filterMap_distinct h ha fun id _ => id] at hid
      exact (hid (List.mem_filterMap.mpr ⟨r, hr, by rw [hband]; rfl⟩)).elim

theorem summaryLines_eq (h : Layout.load first entries = .ok l) (ha : Parts name l samples a) :
    a.diagram.summaryLines =
      s!"graph {a.diagram.name}: {a.diagram.nodes.length} nodes, {a.diagram.arrows.length} edges" ::
        if a.statistics.bands.entries = [] then []
        else ["- highlighted nodes: " ++
          ", ".intercalate (a.statistics.bands.entries.map Prod.fst)] := by
  have hbold := congrArg (List.map Prod.fst) (filter_bold_nodes h ha)
  rw [List.map_map, List.map_map] at hbold
  have hids : (a.diagram.nodes.filter (·.bold)).map (·.id) =
      a.statistics.bands.entries.map Prod.fst := hbold
  simp [Diagram.summaryLines, hids]

/-! ## The report -/

/-- The routines with a band, each with its band, and the lines that tell it. -/
theorem exists_told (h : Layout.load first entries = .ok l) (ha : Parts name l samples a) :
    ∃ told : List (Routine × Band), (told.map Prod.fst).Sublist a.distinct ∧
      told.map (fun (r, band) => (r.id, band)) = a.statistics.bands.entries ∧
      a.distinct.filterMap (Printout.bandLine? a.statistics) =
        told.map fun (r, band) => s!"Node nr. {r.id} ({r.name}), is called {band.phrase}." := by
  refine ⟨a.distinct.filterMap fun r => (a.statistics.bandOf r.id).map (r, ·), ?_, ?_, ?_⟩
  · simp only [List.map_filterMap, Option.map_map, Function.comp_def]
    rw [filterMap_map_const fun r : Routine => a.statistics.bandOf r.id]
    exact List.filter_sublist
  · simp only [List.map_filterMap, Option.map_map, Function.comp_def]
    exact (filterMap_distinct h ha Prod.mk).trans (List.map_id _)
  · simp only [List.map_filterMap, Option.map_map, Function.comp_def]
    rfl

theorem statisticsText_eq {mean spread : Numeric.Binary64} (ha : Parts name l samples a)
    (hmean : a.statistics.mean = .real mean) (hspread : a.statistics.spread = .real spread) :
    a.statisticsText = .ok (Printout.ofLines
      (s!"Average calls: {mean.plainText}, standard deviation: {spread.plainText}" ::
        a.distinct.map (Printout.countLine a.statistics) ++
          a.distinct.filterMap (Printout.bandLine? a.statistics))) := by
  rw [statisticsText, Printout.statistics, hmean, hspread, ha.itinerary, ← ha.distinct]
  rfl

theorem presents_of_parts (h : Layout.load first entries = .ok l)
    (ha : Parts name l samples a) : Presents a a.statistics.bands.entries := by
  obtain ⟨mean, spread, hmean, hspread⟩ := Statistics.exists_real_of_ofVisits ha.statistics
  constructor
  · exact (Statistics.bandOf_of_ofVisits ha.statistics).1
  · rfl
  · exact Statistics.outliers_of_ofVisits ha.statistics
  · exact filter_bold_nodes h ha
  · intro n hn hid
    exact plain_of_mem_nodes h ha hn hid
  · exact summaryLines_eq h ha
  · exact Statistics.filterMap_rows ha.statistics fun id band => (id, band.label)
  · obtain ⟨told, hsublist, htold, hlines⟩ := exists_told h ha
    refine ⟨_, _, told, by rw [hmean]; rfl, by rw [hspread]; rfl, hsublist, htold, ?_⟩
    rw [statisticsText_eq ha hmean hspread, hlines]
  · refine ⟨_, _, by rw [hmean]; rfl, by rw [hspread]; rfl, ?_⟩
    rw [Statistics.summary, hmean, hspread]
    rfl

/-- However the nodes of an analysis through a loaded layout are presented, the same ones stand out
in the same order, each with the band that its call count falls into. There is an analysis of every
trace that is not too long for exact sums. -/
theorem presents_ofSamples (h : Layout.load first entries = .ok l) (name : String)
    (samples : List Int) :
    (∀ a, ofSamples name l samples = .ok a → ∃ marked, Presents a marked) ∧
      (samples.length ≤ 2 ^ 26 - 2 → ∃ a, ofSamples name l samples = .ok a) := by
  constructor
  · intro a ha
    exact ⟨a.statistics.bands.entries, presents_of_parts h (parts_of_ofSamples ha)⟩
  · exact exists_ofSamples name l

/-- A routine that the others come back to. -/
theorem presents_ofSamples_return :
    ∃ l a, Layout.load 1 [⟨"f", 0, 15⟩, ⟨"g", 16, 15⟩, ⟨"h", 32, 15⟩] = .ok l ∧
      ofSamples "return" l [3, 20, 4, 40, 5, 21, 6] = .ok a ∧ Presents a [("1", .high)] := by
  have hload : Layout.load 1 [⟨"f", 0, 15⟩, ⟨"g", 16, 15⟩, ⟨"h", 32, 15⟩] =
      .ok ⟨[⟨"1", "f", some 0, some 15⟩, ⟨"2", "g", some 16, some 31⟩,
        ⟨"3", "h", some 32, some 47⟩]⟩ := rfl
  obtain ⟨hpresents, hsome⟩ := presents_ofSamples hload "return" [3, 20, 4, 40, 5, 21, 6]
  obtain ⟨a, ha⟩ := hsome (by decide)
  obtain ⟨marked, hmarked⟩ := hpresents a ha
  have hbands : (Statistics.ofVisits ["Start", "1", "2", "1", "3", "1", "2", "1", "Exit"]).map
      (·.bands.entries) = .ok [("1", .high)] := by
    decide +kernel
  have hvisits : Statistics.ofVisits ["Start", "1", "2", "1", "3", "1", "2", "1", "Exit"] =
      .ok a.statistics := by
    rw [← (parts_of_ofSamples ha).statistics, visits, Itinerary.ofTrace_eq]
    rfl
  have hhigh : a.statistics.bands.entries = [("1", .high)] := by
    rw [hvisits] at hbands
    exact Except.ok.inj hbands
  rw [← hmarked.bands, hhigh] at hmarked
  exact ⟨_, a, hload, ha, hmarked⟩

end VisitGraph.Analysis
