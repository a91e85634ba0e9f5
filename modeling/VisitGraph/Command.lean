import VisitGraph.Arguments
import VisitGraph.Diagram.Dot
import VisitGraph.Disk
import VisitGraph.Narration

/-! The command: reads a function listing and a trace, writes the printouts and the diagram. -/

namespace VisitGraph

/-- Where the four outputs go. -/
structure Destinations where
  graph : Route
  statistics : Route
  table : Route
  sequence : Route
  deriving DecidableEq, Repr

namespace Destinations

/-- The outputs under their usual names in a folder. -/
def inFolder (folder : Route) : Destinations :=
  { graph := folder.child "graph.dot"
    statistics := folder.child "node_stats.txt"
    table := folder.child "node_table.txt"
    sequence := folder.child "node_sequence.txt" }

/-- The outputs in the chosen folder, or else beside the trace. -/
def usual (trace : Route) (folder? : Option Route) : Destinations :=
  inFolder (folder?.getD trace.parent)

/-- The outputs where the settings want them. -/
def ofSettings (s : Settings) (trace : Route) : Destinations :=
  let usual := usual trace s.outputFolder?
  { graph := s.graphOut?.getD usual.graph
    statistics := s.statisticsOut?.getD usual.statistics
    table := s.tableOut?.getD usual.table
    sequence := s.sequenceOut?.getD usual.sequence }

/-- The lines that tell where the outputs are. -/
def lines (d : Destinations) : List String :=
  [s!"node sequence written to {d.sequence.toString}",
    s!"node statistics written to {d.statistics.toString}",
    s!"node table written to {d.table.toString}",
    s!"graph written to {d.graph.toString}"]

end Destinations

/-- The texts that an analysis comes out as. -/
structure Outputs where
  sequence : String
  statistics : String
  table : String
  graph : String
  summary : String
  deriving DecidableEq, Repr

/-- The texts of an analysis. -/
def Analysis.outputs (a : Analysis) : Except Fault Outputs := do
  return {
    sequence := a.sequenceText
    statistics := ← a.statisticsText
    table := ← a.adjacencyText
    graph := a.diagram.toDot
    summary := ← a.statistics.summary }

/-- The files to be written, in order. -/
def Outputs.files (o : Outputs) (d : Destinations) : List (Route × String) :=
  [(d.sequence, o.sequence), (d.statistics, o.statistics), (d.table, o.table), (d.graph, o.graph)]

namespace Command

/-- How a run ends. -/
inductive Outcome where
  /-- Help was asked for. -/
  | help
  /-- The arguments make no sense. -/
  | misuse
  /-- The inputs are refused, with a message. -/
  | refused (message : String)
  /-- Nothing was left of the name of the trace. -/
  | noTrace
  /-- A file could not be read or written. -/
  | blocked (blockage : Blockage)
  /-- All went well, and these lines are printed. -/
  | done (lines : List String)
  deriving DecidableEq, Repr

/-- How a run ends and what it told on the way. -/
structure Ending where
  outcome : Outcome
  notices : List Notice
  deriving DecidableEq, Repr

/-- The complaint about an input that is not there. -/
def missingMessage (r : Route) : String :=
  s!"missing input file: {r.toString}"

/-- The complaint about inputs that cannot be analysed. -/
def faultMessage (f : Fault) : String :=
  s!"error: {f.message}"

variable {m : Type → Type} [Monad m] [Disk m]

/-- Makes sure that an input is there. -/
def checkInput (r : Route) : m (Except Outcome Unit) := do
  match ← Disk.present r with
  | .error obstacle => return .error (.blocked ⟨obstacle, r⟩)
  | .ok false => return .error (.refused (missingMessage r))
  | .ok true => return .ok ()

/-- The name of the trace, once both inputs are known to be there. -/
def checkInputs (s : Settings) : m (Except Outcome Route) := do
  match ← checkInput s.functions with
  | .error outcome => return .error outcome
  | .ok () =>
    match s.trace? with
    | none => return .error .noTrace
    | some trace => return (← checkInput trace).map fun _ => trace

/-- The text of an input. -/
def readInput (r : Route) : m (Except Outcome String) := do
  match ← Disk.read r with
  | .error obstacle => return .error (.blocked ⟨obstacle, r⟩)
  | .ok bytes => return (textOfBytes bytes).mapError fun fault => .refused (faultMessage fault)

/-- The texts of both inputs. -/
def readInputs (functions trace : Route) : m (Except Outcome (String × String)) := do
  match ← readInput functions with
  | .error outcome => return .error outcome
  | .ok listing => return (← readInput trace).map (listing, ·)

/-- Writes files in order, up to the first that cannot be written. -/
def writeFiles : List (Route × String) → m (Except Blockage Unit)
  | [] => return .ok ()
  | (r, text) :: rest => do
    match ← Disk.writeText r text with
    | .error blockage => return .error blockage
    | .ok () => writeFiles rest

/-- What is told of some notices: nothing unless that is asked for. -/
def told (s : Settings) (notices : Unit → List Notice) : List Notice :=
  if s.verbose then notices () else []

/-- Writes the outputs of an analysis, after a story that has been told already. -/
def writeOutputs (s : Settings) (d : Destinations) (story : List Notice) (a : Analysis) :
    m Ending := do
  match a.outputs with
  | .error fault => return ⟨.refused (faultMessage fault), story⟩
  | .ok outputs =>
    match ← writeFiles (outputs.files d) with
    | .error blockage => return ⟨.blocked blockage, story⟩
    | .ok () =>
      return ⟨.done (d.lines ++ [outputs.summary]),
        story ++ told s fun _ => [.written a.diagram.nodes.length d.graph]⟩

/-- Analyses the inputs once they have been found. -/
def runOn (s : Settings) (trace : Route) : m Ending := do
  let opening := Notice.reading s.functions trace
  match ← readInputs s.functions trace with
  | .error outcome => return ⟨outcome, told s fun _ => [opening]⟩
  | .ok (listing, samples) =>
    let story := told s fun _ =>
      opening :: Notice.ofTexts s.shownGraphName s.separator listing samples
    match Analysis.ofTexts s.graphName s.separator listing samples with
    | .error fault => return ⟨.refused (faultMessage fault), story⟩
    | .ok a => writeOutputs s (.ofSettings s trace) story a

/-- Runs with settings. -/
def runWith (s : Settings) : m Ending := do
  match ← checkInputs s with
  | .error outcome => return ⟨outcome, []⟩
  | .ok trace => runOn s trace

/-- Runs with arguments. -/
def run (arguments : List String) : m Ending := do
  match Arguments.read arguments with
  | .error .help => return ⟨.help, []⟩
  | .error .misuse => return ⟨.misuse, []⟩
  | .ok s => runWith s

end VisitGraph.Command
