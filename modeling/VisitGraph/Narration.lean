import VisitGraph.Analysis
import VisitGraph.Route

/-! What a run tells about its progress. -/

namespace VisitGraph

/-- A step of a run that is worth telling. -/
inductive Notice where
  | reading (functions trace : Route)
  | loaded (functions : Nat)
  | outside (samples : Nat)
  | reduced (samples occurrences addresses : Nat)
  | counted (summary : String)
  | linked (transitions nodes : Nat)
  | analysed (samples occurrences nodes : Nat)
  | drawn (line : String)
  | written (nodes : Nat) (route : Route)
  deriving DecidableEq, Repr

namespace Notice

/-- The line of a notice: its level, the part of the program it comes from, and what happened. -/
def line : Notice → String
  | reading functions trace =>
    s!"INFO blocktrace.pipeline: reading functions from {functions.toString}" ++
      s!" and trace from {trace.toString}"
  | loaded functions => s!"DEBUG blocktrace.functions: loaded {functions} functions"
  | outside samples =>
    s!"DEBUG blocktrace.trace: {samples} trace samples fell outside every function"
  | reduced samples occurrences addresses =>
    s!"DEBUG blocktrace.trace: reduced {samples} samples to {occurrences} occurrences" ++
      s!" ({addresses} distinct addresses)"
  | counted summary => s!"DEBUG blocktrace.call_stats: call statistics: {summary}"
  | linked transitions nodes =>
    s!"DEBUG blocktrace.transitions: built {transitions} edges across {nodes} nodes"
  | analysed samples occurrences nodes =>
    s!"INFO blocktrace.pipeline: {samples} samples -> {occurrences} occurrences" ++
      s!" of {nodes} distinct nodes"
  | drawn line => s!"DEBUG blocktrace.pipeline: {line}"
  | written nodes route =>
    s!"INFO blocktrace.dot: wrote graph with {nodes} nodes to {route.toString}"

/-- The notices about locating a trace: samples outside every function are told if there are
any. -/
def ofLocating (layout : Layout) (samples : List Int) : List Notice :=
  let (hits, locator) := (Locator.resolveAll samples).run (.new layout)
  let missed := samples.length - hits.length
  (if missed = 0 then [] else [outside missed]) ++
    [reduced samples.length (Itinerary.ofHits hits).length locator.knownCount]

/-- The notices about a finished analysis of so many samples. -/
def ofAnalysis (samples : Nat) (a : Analysis) : List Notice :=
  let summary := (a.statistics.summary.toOption).getD ""
  let transitions := a.transitions.values.flatten
  [counted summary, linked transitions.length a.transitions.size,
    analysed samples a.itinerary.length a.distinct.length] ++
    a.diagram.summaryLines.map drawn

/-- The notices about an analysis of texts, up to the step that fails if one does. -/
def ofTexts (name separator listing trace : String) : List Notice :=
  match Listing.readLayout separator listing, Trace.read trace with
  | .error _, _ => []
  | .ok layout, .error _ => [loaded layout.size]
  | .ok layout, .ok samples =>
    loaded layout.size :: ofLocating layout samples ++
      match Analysis.ofSamples name layout samples with
      | .error _ => []
      | .ok a => ofAnalysis samples.length a

end VisitGraph.Notice
