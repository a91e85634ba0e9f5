import VisitGraph.Proofs.Analysis.Parts
import VisitGraph.Proofs.Statistics.Counting
import VisitGraph.Proofs.Statistics.Renaming

/-! # Bands of visited nodes

The band that is recorded for a node is the one that its call count falls into. The bands stand in
the order in which the nodes were counted, and a node without one is left out. -/

namespace VisitGraph

/-- The elements with a value, seen through a function, or else each with its value. -/
theorem map_filter_isSome {α β γ : Type} {f : α → Option β} {g : α → γ} {g' : α → β → γ}
    (h : ∀ x b, f x = some b → g x = g' x b) (xs : List α) :
    (xs.filter fun x => (f x).isSome).map g = xs.filterMap fun x => (f x).map (g' x) := by
  induction xs with
  | nil => rfl
  | cons x xs ih =>
      cases hx : f x with
      | none => simp [hx, ih]
      | some b => simp [hx, ih, h x b hx]

theorem filterMap_map_const {α β : Type} (f : α → Option β) (xs : List α) :
    (xs.filterMap fun x => (f x).map fun _ => x) = xs.filter fun x => (f x).isSome := by
  have hfilter := map_filter_isSome (f := f) (g := fun x => x) (fun _ _ _ => rfl) xs
  rw [← hfilter, List.map_id']

theorem Roster.get?_mk_filterMap {κ α : Type} [DecidableEq κ] (ks : List κ) (f : κ → Option α)
    (k : κ) : (⟨ks.filterMap fun k => (f k).map (k, ·)⟩ : Roster κ α).get? k =
      if k ∈ ks then f k else none := by
  simp only [get?]
  induction ks with
  | nil => rfl
  | cons k' ks ih =>
      by_cases hk : k = k'
      · subst hk
        cases hf : f k with
        | none => simp [hf, ih]
        | some a => simp [hf]
      · cases hf : f k' with
        | none => simp [hf, ih, hk]
        | some a => simp [hf, ih, hk, List.lookup_cons, beq_false_of_ne hk]

namespace Statistics

open Numeric

variable {ids : List String} {s : Statistics}

theorem bandsOf_of_classify {calls : Roster String Int} {mean spread : Quantity}
    {band : String → Option Band}
    (h : ∀ entry ∈ calls.entries,
      Band.classify (.int entry.2) mean spread = .ok (band entry.1)) :
    bandsOf calls mean spread = .ok ⟨calls.keys.filterMap fun id => (band id).map (id, ·)⟩ := by
  have hbanded : ∀ entry ∈ calls.entries,
      banded mean spread entry = .ok ((band entry.1).map (entry.1, ·)) := by
    intro entry hentry
    rw [banded, h entry hentry]
    rfl
  rw [bandsOf_eq, mapM_eq_ok_map hbanded]
  simp [Except.map, Roster.keys, List.filterMap_map]

theorem entries_calls_of_ofVisits (h : ofVisits ids = .ok s) :
    s.calls.entries = s.calls.keys.map fun id => (id, s.callsOf id) := by
  have hcalls : s.callsOf = fun id => (ids.count id : Int) := by
    funext id
    exact callsOf_of_ofVisits h id
  rw [keys_calls_of_ofVisits h, hcalls, calls_of_ofVisits h, Roster.map, Roster.entries_tally]
  simp

theorem exists_real_of_ofVisits (h : ofVisits ids = .ok s) :
    ∃ mean spread, s.mean = .real mean ∧ s.spread = .real spread := by
  simp only [ofVisits, bind_eq_ok, pure_eq_ok] at h
  obtain ⟨⟨mean, spread⟩, -, bands, -, rfl⟩ := h
  exact ⟨mean, spread, rfl, rfl⟩

/-- A node falls into the band of its call count, and that band is recorded for it. -/
theorem exists_band_of_ofVisits (h : ofVisits ids = .ok s) :
    ∃ band : String → Option Band,
      (∀ id, Band.classify (.int (s.callsOf id)) s.mean s.spread = .ok (band id)) ∧
        s.bands = ⟨s.calls.keys.filterMap fun id => (band id).map (id, ·)⟩ := by
  have hentries := entries_calls_of_ofVisits h
  simp only [ofVisits, bind_eq_ok, pure_eq_ok] at h
  obtain ⟨⟨mean, spread⟩, -, bands, hbands, hs⟩ := h
  have hsucceeds : ∀ id, ∃ band,
      Band.classify (.int (s.callsOf id)) (.real mean) (.real spread) = .ok band :=
    fun id => Band.succeeds_firstOf Band.all _
  choose band hband using hsucceeds
  subst hs
  refine ⟨band, hband, ?_⟩
  have hclassify : ∀ entry ∈ ((Roster.tally ids).map Int.ofNat).entries,
      Band.classify (.int entry.2) (.real mean) (.real spread) = .ok (band entry.1) := by
    intro entry hentry
    rw [hentries] at hentry
    obtain ⟨id, -, rfl⟩ := List.mem_map.mp hentry
    exact hband id
  exact Except.ok.inj (hbands.symm.trans (bandsOf_of_classify hclassify))

theorem bandOf_of_ofVisits (h : ofVisits ids = .ok s) :
    (∀ id ∈ s.calls.keys, Band.classify (.int (s.callsOf id)) s.mean s.spread =
      .ok (s.bandOf id)) ∧
    s.bands.entries = s.calls.keys.filterMap fun id => (s.bandOf id).map (id, ·) := by
  obtain ⟨band, hband, hbands⟩ := exists_band_of_ofVisits h
  have hbandOf : ∀ id ∈ s.calls.keys, s.bandOf id = band id := by
    intro id hid
    rw [bandOf, hbands, Roster.get?_mk_filterMap, if_pos hid]
  constructor
  · intro id hid
    rw [hbandOf id hid]
    exact hband id
  · conv_lhs => rw [hbands]
    apply List.filterMap_congr
    intro id hid
    rw [hbandOf id hid]

/-! ## Nodes with a band -/

/-- What is told of each counted node with its band is told of the recorded bands. -/
theorem filterMap_bandOf {γ : Type} (h : ofVisits ids = .ok s) (f : String → Band → γ) :
    (s.calls.keys.filterMap fun id => (s.bandOf id).map (f id)) =
      s.bands.entries.map fun (id, band) => f id band := by
  rw [(bandOf_of_ofVisits h).2, List.map_filterMap]
  simp [Function.comp_def]

theorem outliers_of_ofVisits (h : ofVisits ids = .ok s) :
    s.outliers = s.bands.entries.map Prod.fst := by
  calc s.outliers = s.calls.keys.filterMap fun id => (s.bandOf id).map fun _ => id :=
        (filterMap_map_const s.bandOf s.calls.keys).symm
    _ = s.bands.entries.map Prod.fst := filterMap_bandOf h fun id _ => id

theorem filterMap_rows {γ : Type} (h : ofVisits ids = .ok s) (f : String → Band → γ) :
    (s.rows.filterMap fun (id, _, band?) => band?.map (f id)) =
      s.bands.entries.map fun (id, band) => f id band := by
  rw [← filterMap_bandOf h, rows, Roster.keys, List.filterMap_map, List.filterMap_map]
  rfl

end Statistics

end VisitGraph
