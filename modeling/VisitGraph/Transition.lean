import VisitGraph.Numeric.Quantity
import VisitGraph.Roster

/-! Transitions between nodes: how often one follows another, with what probability, and which
transitions are emphasised. -/

namespace VisitGraph

open Numeric

/-- How a transition is emphasised among those with the same source. -/
inductive Emphasis where
  | none
  | uniform
  | favoured
  | disfavoured
  | sole
  deriving DecidableEq, Repr

namespace Emphasis

/-- Where several apply, the one with the higher priority is shown. -/
def priority : Emphasis → Nat
  | none => 0
  | uniform => 1
  | favoured | disfavoured => 2
  | sole => 3

/-- The color of an emphasised transition. -/
def color? : Emphasis → Option String
  | none => Option.none
  | uniform => some "blue"
  | favoured => some "green3"
  | disfavoured => some "red1"
  | sole => some "gray"

/-- The first of those with the highest priority. -/
def strongest (marks : List Emphasis) : Emphasis :=
  marks.foldl (fun best mark => if best.priority < mark.priority then mark else best) none

/-- What applies to a transition with a given count among all counts of its source. Counts are
compared, not probabilities, so that no rounding interferes. -/
def applying (counts : List Int) (count : Int) : List Emphasis :=
  (if counts.length = 1 then [sole] else []) ++
    if counts.all (· = count) then [uniform]
    else if counts.count count ≠ 1 then []
    else if counts.all (· ≤ count) then [favoured]
    else if counts.all (count ≤ ·) then [disfavoured]
    else []

end Emphasis

/-- A transition that was seen: the nodes, how often, and how likely among those of its source. -/
structure Transition where
  source : String
  target : String
  count : Int
  probability : Quantity
  emphasis : Emphasis
  deriving DecidableEq, Repr

namespace Transition

/-- Sets the emphasis of all transitions of one source. -/
def emphasise (ts : List Transition) : List Transition :=
  let counts := ts.map (·.count)
  ts.map fun t => { t with emphasis := .strongest (Emphasis.applying counts t.count) }

/-- The nodes that directly follow a node, in order, as often as they do. -/
def followers (ids : List String) (source : String) : List String :=
  (ids.zip ids.tail).filterMap fun (current, next) =>
    if current = source then some next else none

/-- Every node of an itinerary with its followers. -/
def successors (ids : List String) : Roster String (List String) :=
  ⟨ids.eraseDups.map fun source => (source, followers ids source)⟩

/-- The transitions from a node to its followers, in the order of their first occurrence. The
probability is the quotient of the counts, rounded once. -/
def group (source : String) (targets : List String) : List Transition :=
  (Roster.tally targets).entries.map fun (target, count) =>
    let share := Binary64.ofRatio false count targets.length
    ⟨source, target, count, .real share, .none⟩

/-- Every node of an itinerary with the transitions that leave it. -/
def ofVisits (ids : List String) : Roster String (List Transition) :=
  ⟨(successors ids).entries.map fun (source, targets) =>
    (source, emphasise (group source targets))⟩

/-- The sum of the probabilities, from left to right. -/
def outgoing (ts : List Transition) : Except Fault Quantity :=
  ts.foldlM (fun sum t => sum.add t.probability) (.int 0)

end VisitGraph.Transition
