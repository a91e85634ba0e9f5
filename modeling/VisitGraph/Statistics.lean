import VisitGraph.Band
import VisitGraph.Roster
import VisitGraph.Spread

/-! Call counts, their mean and spread, and the functions that stand out. -/

namespace VisitGraph

open Numeric

/-- The call count of every node, with mean and spread, and the bands of the nodes that have one. -/
structure Statistics where
  calls : Roster String Int
  mean : Quantity
  spread : Quantity
  bands : Roster String Band
  deriving DecidableEq, Repr

namespace Statistics

/-- How often a node was visited; none at all if it was not counted. -/
def callsOf (s : Statistics) (id : String) : Int :=
  (s.calls.get? id).getD 0

/-- The band of a node that stands out. -/
def bandOf (s : Statistics) (id : String) : Option Band :=
  s.bands.get? id

/-- The counted nodes that have a band. -/
def outliers (s : Statistics) : List String :=
  s.calls.keys.filter s.bands.contains

/-- One line about the whole. -/
def summary (s : Statistics) : Except Fault String := do
  let mean ← s.mean.fixedText
  let spread ← s.spread.fixedText
  return s!"nodes={s.calls.size} mean={mean} dispersion={spread} outliers={s.bands.size}"

/-- Every counted node with its count and its band. -/
def rows (s : Statistics) : List (String × Int × Option Band) :=
  s.calls.entries.map fun (id, n) => (id, n, s.bandOf id)

/-- The bands of counted nodes, in their order. -/
def bandsOf (calls : Roster String Int) (mean spread : Quantity) :
    Except Fault (Roster String Band) := do
  let found ← calls.entries.mapM fun (id, n) => do
    return (← Band.classify (.int n) mean spread).map (id, ·)
  return ⟨found.filterMap id⟩

/-- Counts the nodes of an itinerary, given by their ids, and finds those that stand out. -/
def ofVisits (ids : List String) : Except Fault Statistics := do
  let calls := (Roster.tally ids).map Int.ofNat
  let (mean, spread) ← Spread.meanAndSpread (calls.values.map .int)
  let bands ← bandsOf calls (.real mean) (.real spread)
  return ⟨calls, .real mean, .real spread, bands⟩

end VisitGraph.Statistics
