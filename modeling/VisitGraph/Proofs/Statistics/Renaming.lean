import VisitGraph.Proofs.Outcome
import VisitGraph.Proofs.Roster.Renaming
import VisitGraph.Statistics

/-! # Statistics of renamed nodes

The names of the nodes play no part in the statistics, nor in whether there are any: if the nodes
are renamed, so are those that are counted and those that stand out. -/

namespace VisitGraph.Statistics

open Numeric

/-- The same statistics for renamed nodes. -/
def rename (ρ : String → String) (s : Statistics) : Statistics :=
  { s with calls := s.calls.rename ρ, bands := s.bands.rename ρ }

/-- A node with the band of its call count, if it has one. -/
def banded (mean spread : Quantity) (entry : String × Int) :
    Except Fault (Option (String × Band)) := do
  return (← Band.classify (.int entry.2) mean spread).map (entry.1, ·)

theorem bandsOf_eq (calls : Roster String Int) (mean spread : Quantity) :
    bandsOf calls mean spread =
      (calls.entries.mapM (banded mean spread)).map fun found => ⟨found.filterMap id⟩ := by
  change (calls.entries.mapM (banded mean spread) >>= fun found =>
    pure (Roster.mk (found.filterMap id))) = _
  cases calls.entries.mapM (banded mean spread) <;> rfl

theorem banded_rename (ρ : String → String) (mean spread : Quantity) (entry : String × Int) :
    banded mean spread (ρ entry.1, entry.2) =
      (banded mean spread entry).map (Option.map fun found => (ρ found.1, found.2)) := by
  rw [banded, banded]
  cases Band.classify (.int entry.2) mean spread with
  | error fault => rfl
  | ok band => cases band <;> rfl

theorem bandsOf_rename (ρ : String → String) (calls : Roster String Int) (mean spread : Quantity) :
    bandsOf (calls.rename ρ) mean spread = (bandsOf calls mean spread).map (Roster.rename ρ) := by
  rw [bandsOf_eq, bandsOf_eq, Roster.rename, mapM_map_of_comm (banded_rename ρ mean spread)]
  cases calls.entries.mapM (banded mean spread) with
  | error fault => rfl
  | ok found =>
      simp only [Except.map, Roster.rename, List.filterMap_map, List.map_filterMap]
      rfl

variable {ρ : String → String}

theorem ofVisits_map (hρ : Function.Injective ρ) (ids : List String) :
    ofVisits (ids.map ρ) = (ofVisits ids).map (rename ρ) := by
  rw [ofVisits, ofVisits, Roster.tally_map hρ, Roster.map_rename, Roster.values_rename]
  cases Spread.meanAndSpread (((Roster.tally ids).map Int.ofNat).values.map .int) with
  | error fault => rfl
  | ok pair =>
      obtain ⟨mean, spread⟩ := pair
      change (bandsOf (((Roster.tally ids).map Int.ofNat).rename ρ) (.real mean) (.real spread) >>=
          fun bands => Except.ok _) = Except.map (rename ρ) (bandsOf
            ((Roster.tally ids).map Int.ofNat) (.real mean) (.real spread) >>=
              fun bands => Except.ok _)
      rw [bandsOf_rename]
      cases bandsOf ((Roster.tally ids).map Int.ofNat) (.real mean) (.real spread) <;> rfl

theorem callsOf_rename (hρ : Function.Injective ρ) (s : Statistics) (id : String) :
    (s.rename ρ).callsOf (ρ id) = s.callsOf id := by
  rw [callsOf, rename, Roster.get?_rename hρ, callsOf]

theorem bandOf_rename (hρ : Function.Injective ρ) (s : Statistics) (id : String) :
    (s.rename ρ).bandOf (ρ id) = s.bandOf id := by
  rw [bandOf, rename, Roster.get?_rename hρ, bandOf]

end VisitGraph.Statistics
