import VisitGraph.Locator

/-! Itineraries: the functions that a trace goes through, from start to exit, without immediate
repeats. -/

namespace VisitGraph

/-- Leaves out every element that equals the one after it, so that of each run one stays. -/
def collapse {α : Type} [DecidableEq α] (xs : List α) : List α :=
  xs.foldr (fun x rest => if rest.head? = some x then rest else x :: rest) []

namespace Itinerary

/-- The itinerary through the located functions. -/
def ofHits (hits : List Routine) : List Routine :=
  collapse (.start :: hits ++ [.exit])

/-- The itinerary of a trace, and what is known afterwards. -/
def reduce (samples : List Int) : StateM Locator (List Routine) := do
  return ofHits (← Locator.resolveAll samples)

/-- The itinerary of a trace through a layout. -/
def ofTrace (layout : Layout) (samples : List Int) : List Routine :=
  ((reduce samples).run (.new layout)).1

end VisitGraph.Itinerary
