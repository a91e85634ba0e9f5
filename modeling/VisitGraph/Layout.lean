import VisitGraph.Fault
import VisitGraph.Routine

/-! The functions of a program in the order in which they are listed. -/

namespace VisitGraph

/-- A function as listed: its name, where it starts and how long it is. -/
structure Entry where
  name : String
  start : Int
  length : Int
  deriving DecidableEq, Repr

/-- Routines in order. They may overlap: the earlier one owns a shared address. -/
structure Layout where
  routines : List Routine
  deriving DecidableEq, Repr

namespace Layout

/-- The display ids that are given out in turn, as many as asked for. -/
def ids (first : Int) (count : Nat) : List String :=
  (List.range count).map fun (i : Nat) => toString (first + i)

/-- The routine of an entry. The address at start plus length counts as its last one. -/
def routine (id : String) (e : Entry) : Except Fault Routine :=
  if e.start < 0 then .error (.negativeStart e.name)
  else if e.length < 0 then .error (.negativeLength e.name)
  else .ok ⟨id, e.name, some e.start, some (e.start + e.length)⟩

/-- The layout of the entries, with ids counted up from the first. -/
def load (first : Int) (entries : List Entry) : Except Fault Layout := do
  return ⟨← ((ids first entries.length).zip entries).mapM fun (id, e) => routine id e⟩

/-- The number of routines. -/
def size (l : Layout) : Nat :=
  l.routines.length

/-- The first routine that contains an address. -/
def locate (l : Layout) (address : Int) : Option Routine :=
  l.routines.find? (·.contains address)

/-- The routine at an index; a negative index counts from the end. -/
def at? (l : Layout) (index : Int) : Except Fault Routine :=
  let position := if index < 0 then index + l.size else index
  if position < 0 then .error .noSuchIndex
  else
    match l.routines[position.toNat]? with
    | some r => .ok r
    | none => .error .noSuchIndex

end VisitGraph.Layout
