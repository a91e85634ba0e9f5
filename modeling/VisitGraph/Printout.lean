import VisitGraph.Routine
import VisitGraph.Statistics
import VisitGraph.Transition

/-! Plain printouts of an analysis. -/

namespace VisitGraph.Printout

/-- Every line with its end. -/
def ofLines (lines : List String) : String :=
  String.join (lines.map (· ++ "\n"))

/-- The ids of an itinerary, one a line. -/
def sequence (itinerary : List Routine) : String :=
  ofLines (itinerary.map (·.id))

/-- The line about the call count of a function. -/
def countLine (s : Statistics) (r : Routine) : String :=
  s!"Node nr. {r.id} ({r.name}), called count: {s.callsOf r.id}"

/-- The line about a function that stands out. -/
def bandLine? (s : Statistics) (r : Routine) : Option String :=
  (s.bandOf r.id).map fun band => s!"Node nr. {r.id} ({r.name}), is called {band.phrase}."

/-- The mean and the spread, the call count of each function in the order of its first visit, and
the functions that stand out. -/
def statistics (itinerary : List Routine) (s : Statistics) : Except Fault String := do
  let mean ← s.mean.plainText
  let spread ← s.spread.plainText
  let routines := itinerary.eraseDups
  return ofLines <|
    s!"Average calls: {mean}, standard deviation: {spread}" ::
      routines.map (countLine s) ++ routines.filterMap (bandLine? s)

/-- A target with its probability, ready for more to follow. -/
def targetText (t : Transition) : Except Fault String := do
  let share ← t.probability.shareText
  return s!"{t.target} {share} "

/-- The targets of one node. -/
def targetsLine (ts : List Transition) : Except Fault String := do
  return String.join (← ts.mapM targetText)

/-- Two lines for each node: its id, and its targets. -/
def adjacency (transitions : Roster String (List Transition)) : Except Fault String := do
  let pairs ← transitions.entries.mapM fun (source, ts) => do
    return [source, ← targetsLine ts]
  return ofLines pairs.flatten

end VisitGraph.Printout
