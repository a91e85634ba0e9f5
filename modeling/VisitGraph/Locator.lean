import Std.Data.HashMap
import VisitGraph.Layout

/-! Locating addresses with a memory: a trace comes back to the same addresses, so each is searched
for once. Addresses outside every function are remembered as well. -/

namespace VisitGraph

/-- A layout with the answers found so far. -/
structure Locator where
  layout : Layout
  known : Std.HashMap Int (Option Routine)

namespace Locator

/-- Nothing is known yet. -/
def new (layout : Layout) : Locator :=
  ⟨layout, ∅⟩

/-- The first routine that contains an address, remembered or searched for. -/
def resolve (address : Int) : StateM Locator (Option Routine) := fun l =>
  match l.known[address]? with
  | some answer => (answer, l)
  | none =>
    let answer := l.layout.locate address
    (answer, { l with known := l.known.insert address answer })

/-- The routines of the addresses that lie in one, in order. -/
def resolveAll (addresses : List Int) : StateM Locator (List Routine) := do
  return (← addresses.mapM resolve).filterMap id

/-- How many addresses the locator has been asked for. -/
def knownCount (l : Locator) : Nat :=
  l.known.size

end VisitGraph.Locator
