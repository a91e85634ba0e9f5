/-! Functions of a program and the addresses they occupy. -/

namespace VisitGraph

/-- A function with its display id, its name, and its first and last address. The two ends of an
itinerary have no addresses. -/
structure Routine where
  id : String
  name : String
  first? : Option Int
  last? : Option Int
  deriving DecidableEq, Repr

namespace Routine

/-- Where every itinerary begins. -/
def start : Routine := ⟨"Start", "Start", none, none⟩

/-- Where every itinerary ends. -/
def exit : Routine := ⟨"Exit", "Exit", none, none⟩

/-- Whether the routine is an end of an itinerary. -/
def isBoundary (r : Routine) : Bool :=
  r.first?.isNone

/-- Whether an address lies in the routine, both ends included. -/
def contains (r : Routine) (address : Int) : Bool :=
  match r.first?, r.last? with
  | some first, some last => first ≤ address && address ≤ last
  | _, _ => false

end VisitGraph.Routine
