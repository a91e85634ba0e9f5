import VisitGraph.Proofs.Roster.Tally

/-! # Rosters with other keys

Keys can be renamed, as long as different keys get different names. Looking up and tallying do not
depend on the names. -/

namespace VisitGraph.Roster

variable {κ κ' α β : Type}

/-- The same values for renamed keys. -/
def rename (ρ : κ → κ') (r : Roster κ α) : Roster κ' α :=
  ⟨r.entries.map fun (k, a) => (ρ k, a)⟩

@[simp] theorem values_rename (ρ : κ → κ') (r : Roster κ α) : (r.rename ρ).values = r.values := by
  simp [rename, values]

theorem map_rename (ρ : κ → κ') (f : α → β) (r : Roster κ α) :
    (r.rename ρ).map f = (r.map f).rename ρ := by
  simp [rename, map]

variable [DecidableEq κ] [DecidableEq κ'] {ρ : κ → κ'}

theorem get?_rename (hρ : Function.Injective ρ) (r : Roster κ α) (k : κ) :
    (r.rename ρ).get? (ρ k) = r.get? k := by
  obtain ⟨entries⟩ := r
  simp only [rename, get?]
  induction entries with
  | nil => rfl
  | cons entry entries ih =>
      obtain ⟨k', a⟩ := entry
      have hsame : (ρ k == ρ k') = (k == k') := by
        rw [Bool.eq_iff_iff, beq_iff_eq, beq_iff_eq, hρ.eq_iff]
      rw [List.map_cons, List.lookup_cons, List.lookup_cons, ih, hsame]

theorem tally_map (hρ : Function.Injective ρ) (ks : List κ) :
    tally (ks.map ρ) = (tally ks).rename ρ := by
  have hentries : (tally (ks.map ρ)).entries = ((tally ks).rename ρ).entries := by
    rw [rename, entries_tally, entries_tally, eraseDups_map_of_injOn fun k _ k' _ h => hρ h,
      List.map_map, List.map_map]
    refine List.map_congr_left fun k _ => ?_
    rw [Function.comp_apply, Function.comp_apply, count_map_of_injOn fun k' _ h => hρ h]
  exact congrArg Roster.mk hentries

end VisitGraph.Roster
