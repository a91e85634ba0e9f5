import VisitGraph.Routine
import VisitGraph.Statistics
import VisitGraph.Transition

/-! The picture of an analysis: nodes and arrows with their labels and colors. -/

namespace VisitGraph

/-- A node of a diagram. -/
structure Node where
  id : String
  label : String
  color : String
  bold : Bool
  deriving DecidableEq, Repr

/-- An arrow of a diagram. -/
structure Arrow where
  source : String
  target : String
  label : String
  color? : Option String
  deriving DecidableEq, Repr

/-- A diagram with its name. -/
structure Diagram where
  name : String
  nodes : List Node
  arrows : List Arrow
  deriving DecidableEq, Repr

/-- The color of a node that does not stand out. -/
def Node.plainColor : String := "black"

/-- The node of a function: its id and call count, in the color of its band if it has one. -/
def Node.ofRoutine (s : Statistics) (r : Routine) : Node :=
  { id := r.id
    label := s!"{r.id}({s.callsOf r.id})"
    color := ((s.bandOf r.id).map Band.color).getD Node.plainColor
    bold := (s.bandOf r.id).isSome }

/-- The arrow of a transition, labelled with its probability. -/
def Arrow.ofTransition (t : Transition) : Except Fault Arrow := do
  return ⟨t.source, t.target, ← t.probability.shareText, t.emphasis.color?⟩

namespace Diagram

/-- The name used when none is chosen. -/
def defaultName : String := "BlockTraceGraph"

/-- One node for each function, and the arrows of its transitions. -/
def assemble (name : String) (routines : List Routine) (s : Statistics)
    (transitions : Roster String (List Transition)) : Except Fault Diagram := do
  let leaving := routines.flatMap fun r => (transitions.get? r.id).getD []
  return ⟨name, routines.map (Node.ofRoutine s), ← leaving.mapM Arrow.ofTransition⟩

/-- The first node with an id. -/
def node? (d : Diagram) (id : String) : Option Node :=
  d.nodes.find? (·.id = id)

/-- The arrows that leave a node. -/
def arrowsFrom (d : Diagram) (id : String) : List Arrow :=
  d.arrows.filter (·.source = id)

/-- The last arrow between each two nodes, in the order of the first one between them. -/
def arrowBetween (d : Diagram) : Roster (String × String) Arrow :=
  .ofList (d.arrows.map fun a => ((a.source, a.target), a))

/-- A line with the sizes, and one with the nodes that stand out if there are any. -/
def summaryLines (d : Diagram) : List String :=
  let highlighted := (d.nodes.filter (·.bold)).map (·.id)
  s!"graph {d.name}: {d.nodes.length} nodes, {d.arrows.length} edges" ::
    if highlighted.isEmpty then []
    else ["- highlighted nodes: " ++ ", ".intercalate highlighted]

end VisitGraph.Diagram
