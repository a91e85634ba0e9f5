import VisitGraph.Diagram
import VisitGraph.Itinerary
import VisitGraph.Listing
import VisitGraph.Printout
import VisitGraph.Trace

/-! The whole analysis of a trace. -/

namespace VisitGraph

/-- Everything that is derived from a trace through a layout. -/
structure Analysis where
  layout : Layout
  itinerary : List Routine
  distinct : List Routine
  statistics : Statistics
  transitions : Roster String (List Transition)
  diagram : Diagram
  deriving DecidableEq, Repr

namespace Analysis

/-- Analyses a trace through a layout; the diagram gets the name. -/
def ofSamples (name : String) (layout : Layout) (samples : List Int) : Except Fault Analysis := do
  let itinerary := Itinerary.ofTrace layout samples
  let distinct := itinerary.eraseDups
  let ids := itinerary.map (·.id)
  let statistics ← Statistics.ofVisits ids
  let transitions := Transition.ofVisits ids
  let diagram ← Diagram.assemble name distinct statistics transitions
  return ⟨layout, itinerary, distinct, statistics, transitions, diagram⟩

/-- Analyses a trace given as text through a listing given as text. The listing is read first. -/
def ofTexts (name separator listing trace : String) : Except Fault Analysis := do
  let layout ← Listing.readLayout separator listing
  let samples ← Trace.read trace
  ofSamples name layout samples

/-- The printed itinerary. -/
def sequenceText (a : Analysis) : String :=
  Printout.sequence a.itinerary

/-- The printed statistics. -/
def statisticsText (a : Analysis) : Except Fault String :=
  Printout.statistics a.itinerary a.statistics

/-- The printed transitions. -/
def adjacencyText (a : Analysis) : Except Fault String :=
  Printout.adjacency a.transitions

end VisitGraph.Analysis
