import VisitGraph.Proofs.Numeric.Summation
import VisitGraph.Proofs.Statistics.Counting
import VisitGraph.Proofs.Transition.Passages

/-! # Normalisation of probabilities

No follower of a node is lost when they are grouped, so its counts are parts of its departures, and
their exact shares add up to one. The probabilities are these shares, rounded, and summed with one
rounding for each but the first. -/

namespace VisitGraph.Transition

open Numeric

/-! ## The counts of a node -/

/-- How often each distinct follower of a node follows it. -/
def counts (ids : List String) (source : String) : List ℕ :=
  (Roster.tally (followers ids source)).values

/-- The count of a transition and its share of all of them. -/
def share (t : Transition) : ℤ × Quantity :=
  (t.count, t.probability)

theorem map_share_leaving (ids : List String) (source : String) :
    (leaving ids source).map share = (counts ids source).map fun count : ℕ =>
      ((count : ℤ), .real (.ofRatio false count (departures ids source))) := by
  have hemphasise : ∀ ts : List Transition, (emphasise ts).map share = ts.map share := by
    intro ts
    rw [emphasise, List.map_map]
    rfl
  rw [leaving, hemphasise, group, counts, Roster.values, List.map_map, List.map_map,
    length_followers_eq]
  rfl

theorem map_count_leaving (ids : List String) (source : String) :
    (leaving ids source).map (·.count) = (counts ids source).map (↑) := by
  have hshare := congrArg (List.map Prod.fst) (map_share_leaving ids source)
  simpa only [List.map_map, Function.comp_def, share] using hshare

theorem map_probability_leaving (ids : List String) (source : String) :
    (leaving ids source).map (·.probability) =
      ((counts ids source).map (.ofRatio false · (departures ids source))).map .real := by
  have hshare := congrArg (List.map Prod.snd) (map_share_leaving ids source)
  simpa only [List.map_map, Function.comp_def, share] using hshare

theorem length_leaving (ids : List String) (source : String) :
    (leaving ids source).length = (counts ids source).length := by
  rw [← List.length_map (f := share), map_share_leaving, List.length_map]

/-- The followers of a node that has any are parted into those of each transition. -/
theorem parts_counts {ids : List String} {source : String} (h : leaving ids source ≠ []) :
    Binary64.Parts (counts ids source) (departures ids source) := by
  have hsum : (counts ids source).sum = departures ids source := by
    rw [counts, Roster.sum_values_tally, length_followers_eq]
  have hone : ∀ count ∈ counts ids source, 1 ≤ count := by
    intro count hcount
    have hmem : (count : ℤ) ∈ (leaving ids source).map (·.count) := by
      rw [map_count_leaving]
      exact List.mem_map_of_mem hcount
    obtain ⟨t, ht, heq⟩ := List.mem_map.mp hmem
    have hshare := hasShare_of_mem_leaving ht
    rw [hshare.count_eq, Nat.cast_inj] at heq
    exact heq ▸ hshare.pos
  obtain ⟨t, ht⟩ := List.exists_mem_of_ne_nil _ h
  have hshare := hasShare_of_mem_leaving ht
  exact ⟨hone, hsum, hshare.pos.trans_le hshare.le⟩

/-- The transitions have different targets, and their exact shares of a total add up to one. -/
structure Normalised (ts : List Transition) (total : ℕ) : Prop where
  nodup : (ts.map (·.target)).Nodup
  pos : ∀ t ∈ ts, 0 < (t.count / total : ℚ)
  le_one : ∀ t ∈ ts, (t.count / total : ℚ) ≤ 1
  eq_one_iff : ∀ t ∈ ts, (t.count / total : ℚ) = 1 ↔ ts.length = 1
  sum_eq_one : (ts.map fun t => (t.count / total : ℚ)).sum = 1

theorem normalised_leaving {ids : List String} {source : String} (h : leaving ids source ≠ []) :
    Normalised (leaving ids source) (departures ids source) := by
  have hparts := parts_counts h
  have hcounts := map_count_leaving ids source
  have htotal : (0 : ℚ) < departures ids source := Nat.cast_pos.mpr hparts.pos
  have hcount : ∀ t ∈ leaving ids source, ∃ count ∈ counts ids source, (t.count : ℚ) = count := by
    intro t ht
    have hmem : t.count ∈ (leaving ids source).map (·.count) := List.mem_map_of_mem ht
    rw [hcounts] at hmem
    obtain ⟨count, hcount, heq⟩ := List.mem_map.mp hmem
    exact ⟨count, hcount, by rw [← heq, Int.cast_natCast]⟩
  constructor
  · rw [map_target_leaving]
    exact nodup_eraseDups _
  · intro t ht
    obtain ⟨count, hmem, heq⟩ := hcount t ht
    rw [heq]
    exact div_pos (Nat.cast_pos.mpr (hparts.one_le count hmem)) htotal
  · intro t ht
    obtain ⟨count, hmem, heq⟩ := hcount t ht
    rw [heq]
    exact (div_le_one htotal).mpr (Nat.cast_le.mpr (hparts.le hmem))
  · intro t ht
    obtain ⟨count, hmem, heq⟩ := hcount t ht
    rw [heq, length_leaving]
    exact hparts.div_eq_one_iff hmem
  · have hmap := congrArg (List.map fun n : ℤ => (n / departures ids source : ℚ)) hcounts
    rw [← hparts.sum_div]
    simpa only [List.map_map, Function.comp_def, Int.cast_natCast] using congrArg List.sum hmap

/-! ## The sum of the probabilities -/

theorem foldlM_add_real (xs : List Binary64) (x : Binary64) :
    (xs.map Quantity.real).foldlM Quantity.add (.real x) = .ok (.real (xs.foldl (· + ·) x)) := by
  induction xs generalizing x with
  | nil => rfl
  | cons y xs ih =>
      rw [List.map_cons, List.foldlM_cons, Quantity.add, Quantity.combine_real rfl]
      exact ih (x + y)

/-- Floating point numbers are added to zero from left to right. -/
theorem outgoing_of_map_probability {ts : List Transition} {xs : List Binary64}
    (h : ts.map (·.probability) = xs.map .real) (hne : ts ≠ []) :
    outgoing ts = .ok (.real (Spread.total xs)) := by
  have hfold : outgoing ts = (xs.map Quantity.real).foldlM Quantity.add (.int 0) := by
    rw [← h, List.foldlM_map]
    rfl
  have hzero : Quantity.toReal (.int 0) = .ok ((0 : ℕ) : Binary64) := by
    rw [Spread.toReal_int (by decide), Binary64.natCast_eq_ofInt, Nat.cast_zero]
  cases xs with
  | nil => exact absurd (List.map_eq_nil_iff.mp h) hne
  | cons x xs =>
      rw [hfold, List.map_cons, List.foldlM_cons, Quantity.add, Quantity.combine_real hzero,
        ← Binary64.add_def, Spread.total, List.foldl_cons]
      exact foldlM_add_real xs (((0 : ℕ) : Binary64) + x)

/-- The shares of a node that is ever left add up to one. The sum of its probabilities misses one by
at most the spacing above one for each of them. -/
theorem outgoing_near_one (rs : List Routine) (source : String)
    (htotal : departures (rs.map (·.id)) source ≤ 2 ^ 53) (ts : List Transition)
    (hts : (ofVisits (rs.map (·.id))).get? source = some ts) (hne : ts ≠ []) :
    Normalised ts (departures (rs.map (·.id)) source) ∧
    (∀ t ∈ ts, ∃ share, t.probability = .real share ∧
      share.IsNearest (t.count / departures (rs.map (·.id)) source)) ∧
    ∃ sum value, outgoing ts = .ok (.real sum) ∧ sum.value? = some value ∧
      |value - 1| ≤ ts.length / 2 ^ 52 ∧
      (ts.length ≤ 2 ^ 22 → |value - 1| < 1 / 10 ^ 9) := by
  obtain rfl := eq_leaving_of_get? hts
  obtain ⟨value, hvalue, herror⟩ := (parts_counts hne).abs_total_sub_one_le htotal
  refine ⟨normalised_leaving hne, fun t ht => (hasShare_of_mem_leaving ht).exists_isNearest, _,
    value, outgoing_of_map_probability (map_probability_leaving _ source) hne, hvalue, ?_, ?_⟩
  · rw [length_leaving]
    refine herror.trans (div_le_div_of_nonneg_left (Nat.cast_nonneg _) ?_ ?_)
    · exact pow_pos two_pos 52
    · exact pow_le_pow_right₀ one_le_two (Nat.le_succ 52)
  · intro hlength
    rw [length_leaving] at hlength
    have hlength' : ((counts (rs.map (·.id)) source).length : ℚ) ≤ 2 ^ 22 := by
      exact_mod_cast hlength
    calc |value - 1| ≤ (counts (rs.map (·.id)) source).length / 2 ^ 53 := herror
      _ ≤ 2 ^ 22 / 2 ^ 53 := div_le_div_of_nonneg_right hlength' (pow_nonneg zero_le_two 53)
      _ < 1 / 10 ^ 9 := by decide +kernel

/-- A third of the departures leads on to one node and two thirds to another. -/
theorem outgoing_near_one_thirds :
    let rs : List Routine := [⟨"1", "loop", none, none⟩, ⟨"2", "step", none, none⟩,
      ⟨"1", "loop", none, none⟩, ⟨"3", "rest", none, none⟩, ⟨"1", "loop", none, none⟩,
      ⟨"2", "step", none, none⟩]
    departures (rs.map (·.id)) "1" ≤ 2 ^ 53 ∧ ∃ ts, (ofVisits (rs.map (·.id))).get? "1" = some ts ∧
      ts ≠ [] ∧ Normalised ts 3 ∧ ∃ sum value, outgoing ts = .ok (.real sum) ∧
        sum.value? = some value ∧ |value - 1| < 1 / 10 ^ 9 := by
  intro rs
  have htotal : departures (rs.map (·.id)) "1" ≤ 2 ^ 53 := by decide
  have hmem : "1" ∈ rs.map (·.id) := by decide
  have hlength : (leaving (rs.map (·.id)) "1").length = 2 := by
    rw [length_leaving]
    decide
  have hne : leaving (rs.map (·.id)) "1" ≠ [] := by
    rw [← List.length_pos_iff, hlength]
    decide
  obtain ⟨hnormalised, -, sum, value, hsum, hvalue, -, herror⟩ :=
    outgoing_near_one rs "1" htotal _ (get?_ofVisits_of_mem hmem) hne
  exact ⟨htotal, _, get?_ofVisits_of_mem hmem, hne, hnormalised, sum, value, hsum, hvalue,
    herror (by rw [hlength]; decide)⟩

end VisitGraph.Transition
