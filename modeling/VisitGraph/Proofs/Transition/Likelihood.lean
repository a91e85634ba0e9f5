import VisitGraph.Proofs.Numeric.Order
import VisitGraph.Proofs.Numeric.Share
import VisitGraph.Proofs.Transition.Emphasis
import VisitGraph.Proofs.Transition.Passages

/-! # Emphasis by probability

Counts are compared where probabilities are meant. The rules look at nothing but the order of what
they compare, and up to two to the 53rd departures the rounded probabilities of a node have the
order of its counts. -/

namespace VisitGraph

/-! ## The order of shares -/

namespace Numeric.Quantity

variable {i j : Fin rankCount} {count count' total : ℕ}

theorem place?_finite (rank : Fin rankCount) :
    (real (.finite false rank)).place? = some (0, (Binary64.unitsOfRank rank : ℤ)) := rfl

theorem lt_finite : (real (.finite false i)).lt (real (.finite false j)) = decide (i < j) := by
  simp [lt, place?_finite, Binary64.unitsOfRank_strictMono.lt_iff_lt]

theorem le_finite : (real (.finite false i)).le (real (.finite false j)) = decide (i ≤ j) := by
  simp [le, place?_finite, Binary64.unitsOfRank_strictMono.le_iff_le]

theorem lt_ofRatio (hpos : 0 < total) (hle : count ≤ total) (hle' : count' ≤ total)
    (htotal : total ≤ 2 ^ 53) :
    (real (.ofRatio false count total)).lt (real (.ofRatio false count' total)) =
      decide (count < count') := by
  rw [Binary64.ofRatio_eq_finite hpos hle, Binary64.ofRatio_eq_finite hpos hle',
    lt_finite, decide_eq_decide, Fin.mk_lt_mk]
  exact Binary64.shareRank_lt_iff hle hle' htotal

theorem le_ofRatio (hpos : 0 < total) (hle : count ≤ total) (hle' : count' ≤ total)
    (htotal : total ≤ 2 ^ 53) :
    (real (.ofRatio false count total)).le (real (.ofRatio false count' total)) =
      decide (count ≤ count') := by
  rw [Binary64.ofRatio_eq_finite hpos hle, Binary64.ofRatio_eq_finite hpos hle',
    le_finite, decide_eq_decide, Fin.mk_le_mk, ← not_lt,
    Binary64.shareRank_lt_iff hle' hle htotal, not_lt]

theorem ofRatio_injective (hpos : 0 < total) (hle : count ≤ total) (hle' : count' ≤ total)
    (htotal : total ≤ 2 ^ 53) :
    real (.ofRatio false count total) = real (.ofRatio false count' total) ↔ count = count' := by
  refine ⟨fun h => ?_, fun h => by rw [h]⟩
  have hlt := lt_ofRatio hpos hle hle' htotal
  have hgt := lt_ofRatio hpos hle' hle htotal
  have hself := lt_ofRatio hpos hle hle htotal
  rw [← h] at hlt hgt
  rw [hself, decide_eq_decide] at hlt hgt
  omega

end Numeric.Quantity

/-! ## The rules on anything that is compared -/

namespace Emphasis

/-- The rules for one of some elements that are compared by their weight. -/
def ranked {α : Type} (le : α → α → Bool) (xs : List α) (x : α) : Emphasis :=
  let levels := fun y => le x y && le y x
  if xs.length = 1 then sole
  else if xs.all levels then uniform
  else if xs.countP levels ≠ 1 then none
  else if xs.all (le · x) then favoured
  else if xs.all (le x ·) then disfavoured
  else none

/-- The rules look at nothing but the order. -/
theorem ranked_congr {α : Type} {le le' : α → α → Bool} {xs : List α}
    (h : ∀ x ∈ xs, ∀ y ∈ xs, le x y = le' x y) {x : α} (hx : x ∈ xs) :
    ranked le xs x = ranked le' xs x := by
  have hlevels : ∀ y ∈ xs, (le x y && le y x) = (le' x y && le' y x) := by
    intro y hy
    rw [h x hx y hy, h y hy x hx]
  have hall : ∀ {p q : α → Bool}, (∀ y ∈ xs, p y = q y) → xs.all p = xs.all q := by
    intro p q hpq
    rw [Bool.eq_iff_iff, List.all_eq_true, List.all_eq_true]
    exact forall₂_congr fun y hy => by rw [hpq y hy]
  have hcount : xs.countP (fun y => le x y && le y x) = xs.countP fun y => le' x y && le' y x :=
    List.countP_congr fun y hy => by rw [hlevels y hy]
  simp only [ranked, hall hlevels, hcount, hall fun y hy => h y hy x hx,
    hall fun y hy => h x hx y hy]

end Emphasis

namespace Transition

open Numeric

/-- Sets the emphasis of all transitions of one source by any comparison of them. -/
def emphasiseBy (le : Transition → Transition → Bool) (ts : List Transition) : List Transition :=
  ts.map fun t => { t with emphasis := .ranked le ts t }

theorem emphasise_eq_emphasiseBy (ts : List Transition) :
    emphasise ts = emphasiseBy (fun t u => t.count ≤ u.count) ts := by
  refine List.map_congr_left fun t _ => ?_
  have hlevels : ∀ u : Transition, (decide (t.count ≤ u.count) && decide (u.count ≤ t.count)) =
      decide (u.count = t.count) := by
    intro u
    rw [← Bool.decide_and, decide_eq_decide]
    omega
  rw [Emphasis.strongest_applying, Emphasis.ranked, List.count, List.countP_map]
  simp only [hlevels, List.length_map, List.all_map, Function.comp_def]
  rfl

theorem emphasiseBy_congr {le le' : Transition → Transition → Bool} {ts : List Transition}
    (h : ∀ t ∈ ts, ∀ u ∈ ts, le t u = le' t u) : emphasiseBy le ts = emphasiseBy le' ts :=
  List.map_congr_left fun t ht => by rw [Emphasis.ranked_congr h ht]

/-! ## Probabilities instead of counts -/

section

variable {t u : Transition} {count count' total : ℕ}

theorem HasShare.count_lt_iff (ht : HasShare t count total) (hu : HasShare u count' total)
    (htotal : total ≤ 2 ^ 53) :
    t.count < u.count ↔ t.probability.lt u.probability = true := by
  rw [ht.probability_eq, hu.probability_eq,
    Quantity.lt_ofRatio (ht.pos.trans_le ht.le) ht.le hu.le htotal, decide_eq_true_eq, ht.count_eq,
    hu.count_eq, Nat.cast_lt]

theorem HasShare.count_eq_iff (ht : HasShare t count total) (hu : HasShare u count' total)
    (htotal : total ≤ 2 ^ 53) :
    t.count = u.count ↔ t.probability = u.probability := by
  rw [ht.probability_eq, hu.probability_eq,
    Quantity.ofRatio_injective (ht.pos.trans_le ht.le) ht.le hu.le htotal, ht.count_eq,
    hu.count_eq, Nat.cast_inj]

theorem HasShare.le_probability (ht : HasShare t count total) (hu : HasShare u count' total)
    (htotal : total ≤ 2 ^ 53) :
    t.probability.le u.probability = decide (t.count ≤ u.count) := by
  rw [ht.probability_eq, hu.probability_eq,
    Quantity.le_ofRatio (ht.pos.trans_le ht.le) ht.le hu.le htotal, ht.count_eq, hu.count_eq,
    decide_eq_decide, Nat.cast_le]

end

/-- The rounded probabilities of a node have the order of its counts. The rules on the counts, which
gave the transitions their emphasis, give the same on the probabilities. -/
theorem emphasise_by_probability (rs : List Routine) (source : String)
    (htotal : departures (rs.map (·.id)) source ≤ 2 ^ 53) (ts : List Transition)
    (hts : (ofVisits (rs.map (·.id))).get? source = some ts) :
    (∀ t ∈ ts, ∃ share, t.probability = .real share ∧
      share.IsNearest (t.count / departures (rs.map (·.id)) source)) ∧
    (∀ t ∈ ts, ∀ u ∈ ts,
      (t.count < u.count ↔ t.probability.lt u.probability = true) ∧
      (t.count = u.count ↔ t.probability = u.probability)) ∧
    emphasiseBy (fun t u => t.count ≤ u.count) ts = ts ∧
    emphasiseBy (fun t u => t.probability.le u.probability) ts = ts := by
  obtain rfl := eq_leaving_of_get? hts
  have hcounts : emphasiseBy (fun t u => t.count ≤ u.count) (leaving (rs.map (·.id)) source) =
      leaving (rs.map (·.id)) source := by
    rw [← emphasise_eq_emphasiseBy, leaving, emphasise_emphasise]
  refine ⟨fun t ht => (hasShare_of_mem_leaving ht).exists_isNearest, fun t ht u hu => ?_, hcounts,
    ?_⟩
  · have ht := hasShare_of_mem_leaving ht
    have hu := hasShare_of_mem_leaving hu
    exact ⟨ht.count_lt_iff hu htotal, ht.count_eq_iff hu htotal⟩
  · rw [emphasiseBy_congr fun t ht u hu =>
      (hasShare_of_mem_leaving ht).le_probability (hasShare_of_mem_leaving hu) htotal, hcounts]

/-- A third of the departures leads on to one node and two thirds to another. -/
theorem emphasise_by_probability_thirds :
    let rs : List Routine := [⟨"1", "loop", none, none⟩, ⟨"2", "step", none, none⟩,
      ⟨"1", "loop", none, none⟩, ⟨"3", "rest", none, none⟩, ⟨"1", "loop", none, none⟩,
      ⟨"2", "step", none, none⟩]
    departures (rs.map (·.id)) "1" ≤ 2 ^ 53 ∧ ∃ ts, (ofVisits (rs.map (·.id))).get? "1" = some ts ∧
      ts.map (·.emphasis) = [.favoured, .disfavoured] ∧
      emphasiseBy (fun t u => t.probability.le u.probability) ts = ts := by
  intro rs
  have htotal : departures (rs.map (·.id)) "1" ≤ 2 ^ 53 := by decide
  have hmem : "1" ∈ rs.map (·.id) := by decide
  have hts := get?_ofVisits_of_mem hmem
  exact ⟨htotal, _, hts, by decide +kernel, (emphasise_by_probability rs "1" htotal _ hts).2.2.2⟩

end Transition

end VisitGraph
