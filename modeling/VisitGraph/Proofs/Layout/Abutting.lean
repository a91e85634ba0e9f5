import Mathlib.Data.Int.ConditionallyCompleteOrder
import Mathlib.Data.Nat.Find
import Mathlib.Order.CompletePartialOrder
import Mathlib.Order.ConditionallyCompleteLattice.Basic
import Mathlib.Order.Interval.Set.Disjoint
import Mathlib.Tactic.Push
import VisitGraph.Proofs.Layout.Loading
import VisitGraph.Proofs.Layout.Ownership

/-! # Entries that abut

The bytes of an entry end before the address at start plus length, but its routine holds that
address as well. So entries without a common byte can still have routines with a common address. An
address inside the bytes of one entry then goes astray exactly if an entry listed earlier stops
there. -/

namespace VisitGraph

namespace Entry

/-- The address behind the bytes. -/
def stop (e : Entry) : Int :=
  e.start + e.length

/-- The addresses of the bytes. An entry of length zero has none. -/
def bytes (e : Entry) : Set Int :=
  Set.Ico e.start e.stop

/-- Between entries without a common byte, the routine of one holds a byte of the other only if the
one stops there. -/
theorem stop_eq_of_disjoint {e e' : Entry} {a : Int} (h : Disjoint e'.bytes e.bytes)
    (ha : a ∈ e.bytes) (hstart : e'.start ≤ a) (hstop : a ≤ e'.stop) : e'.stop = a := by
  by_contra hne
  have ha' : a ∈ e'.bytes := ⟨hstart, lt_of_le_of_ne hstop (Ne.symm hne)⟩
  exact Set.disjoint_left.mp h ha' ha

/-- An entry that is not empty stops inside another one only where that one starts, for the byte in
front of its stop is its own. -/
theorem start_eq_of_stop_mem {e e' : Entry} (h : Disjoint e'.bytes e.bytes)
    (hlength : 0 < e'.length) (hstop : e'.stop ∈ e.bytes) : e'.stop = e.start := by
  by_contra hne
  have hlt : e.start < e'.stop := lt_of_le_of_ne hstop.1 (Ne.symm hne)
  have hbefore : e'.stop - 1 ∈ e'.bytes := by
    refine ⟨?_, by omega⟩
    rw [stop]
    omega
  have hinside : e'.stop - 1 ∈ e.bytes := ⟨by omega, lt_trans (by omega) hstop.2⟩
  exact Set.disjoint_left.mp h hbefore hinside

end Entry

namespace Layout

/-- The address is located in the routine at this index. -/
def FoundAt (l : Layout) (a : Int) (i : ℕ) : Prop :=
  ∃ r, l.routines[i]? = some r ∧ l.locate a = some r

/-- The entry at this index stops at the address. -/
def StopsAt (entries : List Entry) (a : Int) (i : ℕ) : Prop :=
  ∃ e, entries[i]? = some e ∧ e.stop = a

/-- Where an address in the bytes of the entry `e` at index `i` is located: in the first routine
before it whose entry stops there, or else in its own. If the earlier entry is not empty, the
address is the one at which `e` starts. -/
structure Abutting (entries : List Entry) (l : Layout) (i : ℕ) (e : Entry) (a : Int) : Prop where
  earlier : ∀ j < i, StopsAt entries a j → (∀ k < j, ¬ StopsAt entries a k) → l.FoundAt a j
  own : (∀ j < i, ¬ StopsAt entries a j) → l.FoundAt a i
  astray_iff : ¬ l.FoundAt a i ↔ ∃ j < i, StopsAt entries a j
  start_eq : ∀ j < i, ∀ e', entries[j]? = some e' → e'.stop = a → e'.length ≠ 0 → a = e.start

variable {first : Int} {entries : List Entry} {l : Layout} {a : Int} {i : ℕ}

theorem holds_placed_iff {id : String} {e : Entry} :
    (placed id e).Holds a ↔ e.start ≤ a ∧ a ≤ e.stop := by
  constructor
  · rintro ⟨start, stop, hstart, hstop, hle, hle'⟩
    cases hstart
    cases hstop
    exact ⟨hle, hle'⟩
  · rintro ⟨hle, hle'⟩
    exact ⟨e.start, e.stop, rfl, rfl, hle, hle'⟩

theorem nodup_routines_of_load (h : load first entries = .ok l) : l.routines.Nodup := by
  apply List.Nodup.of_map (·.id)
  rw [map_id_of_load h]
  exact nodup_ids first entries.length

/-- A routine that holds the address, and is the first to do so. -/
theorem foundAt_of_first {r : Routine} (hr : l.routines[i]? = some r) (hholds : r.Holds a)
    (hfirst : ∀ k < i, ∀ q, l.routines[k]? = some q → ¬ q.Holds a) : l.FoundAt a i := by
  refine ⟨r, hr, ?_⟩
  obtain ⟨hi, rfl⟩ := List.getElem?_eq_some_iff.mp hr
  rw [locate, List.find?_eq_some_iff_getElem]
  refine ⟨Routine.contains_eq_true_iff.mpr hholds, i, hi, rfl, ?_⟩
  intro k hk
  have hnot := hfirst k hk _ (List.getElem?_eq_getElem (hk.trans hi))
  simpa using hnot

theorem FoundAt.unique (h : load first entries = .ok l) {j : ℕ} (hi : l.FoundAt a i)
    (hj : l.FoundAt a j) : i = j := by
  obtain ⟨r, hr, hlocate⟩ := hi
  obtain ⟨q, hq, hlocate'⟩ := hj
  obtain rfl : r = q := Option.some.inj (hlocate.symm.trans hlocate')
  obtain ⟨hlt, -⟩ := List.getElem?_eq_some_iff.mp hr
  exact (List.getElem?_inj hlt (nodup_routines_of_load h)).mp (hr.trans hq.symm)

/-! ## Entries without a common byte -/

section

variable {e : Entry} (h : load first entries = .ok l)
  (hdisjoint : entries.Pairwise fun e e' => Disjoint e.bytes e'.bytes)
  (hi : entries[i]? = some e) (ha : a ∈ e.bytes)

include h hdisjoint hi ha

/-- The routine of an earlier entry holds the address only if the entry stops there. -/
theorem holds_earlier_iff {j : ℕ} (hj : j < i) {q : Routine} (hq : l.routines[j]? = some q) :
    q.Holds a ↔ StopsAt entries a j := by
  rw [getElem?_routines_of_load h] at hq
  obtain ⟨e', he', rfl⟩ := Option.map_eq_some_iff.mp hq
  obtain ⟨hjlt, rfl⟩ := List.getElem?_eq_some_iff.mp he'
  obtain ⟨hilt, rfl⟩ := List.getElem?_eq_some_iff.mp hi
  rw [holds_placed_iff]
  constructor
  · rintro ⟨hstart, hstop⟩
    have hapart := List.pairwise_iff_getElem.mp hdisjoint j i hjlt hilt hj
    exact ⟨_, he', Entry.stop_eq_of_disjoint hapart ha hstart hstop⟩
  · rintro ⟨e'', he'', rfl⟩
    obtain rfl := Option.some.inj (he'.symm.trans he'')
    have hlength := (load_eq_ok.mp h).1 _ (List.getElem_mem hjlt)
    exact ⟨by rw [Entry.stop]; omega, le_rfl⟩

theorem foundAt_earlier {j : ℕ} (hj : j < i) (hstops : StopsAt entries a j)
    (hfirst : ∀ k < j, ¬ StopsAt entries a k) : l.FoundAt a j := by
  obtain ⟨e', he', hstop⟩ := hstops
  have hq : l.routines[j]? = some (placed (toString (first + j)) e') := by
    rw [getElem?_routines_of_load h, he']
    rfl
  refine foundAt_of_first hq ((holds_earlier_iff h hdisjoint hi ha hj hq).mpr ⟨e', he', hstop⟩) ?_
  intro k hk q hq'
  rw [holds_earlier_iff h hdisjoint hi ha (hk.trans hj) hq']
  exact hfirst k hk

theorem foundAt_own (hnone : ∀ j < i, ¬ StopsAt entries a j) : l.FoundAt a i := by
  have hr : l.routines[i]? = some (placed (toString (first + i)) e) := by
    rw [getElem?_routines_of_load h, hi]
    rfl
  refine foundAt_of_first hr (holds_placed_iff.mpr ⟨ha.1, ha.2.le⟩) ?_
  intro j hj q hq
  rw [holds_earlier_iff h hdisjoint hi ha hj hq]
  exact hnone j hj

end

/-- Entries without a common byte are located by their bytes, but for the addresses at which an
entry listed earlier stops. -/
theorem locate_abutting (h : load first entries = .ok l)
    (hdisjoint : entries.Pairwise fun e e' => Disjoint e.bytes e'.bytes) {e : Entry}
    (hi : entries[i]? = some e) (ha : a ∈ e.bytes) : Abutting entries l i e a where
  earlier _ hj hstops hfirst := foundAt_earlier h hdisjoint hi ha hj hstops hfirst
  own hnone := foundAt_own h hdisjoint hi ha hnone
  astray_iff := by
    constructor
    · intro hastray
      by_contra hnone
      push Not at hnone
      exact hastray (foundAt_own h hdisjoint hi ha hnone)
    · intro hsome hfound
      classical
      have hfirst := Nat.find_spec hsome
      have hearlier := foundAt_earlier h hdisjoint hi ha hfirst.1 hfirst.2 fun k hk hstops =>
        Nat.find_min hsome hk ⟨hk.trans hfirst.1, hstops⟩
      exact absurd (hearlier.unique h hfound) hfirst.1.ne
  start_eq j hj e' he' hstop hlength := by
    obtain ⟨hjlt, rfl⟩ := List.getElem?_eq_some_iff.mp he'
    obtain ⟨hilt, rfl⟩ := List.getElem?_eq_some_iff.mp hi
    have hapart := List.pairwise_iff_getElem.mp hdisjoint j i hjlt hilt hj
    have hsign := (load_eq_ok.mp h).1 _ (List.getElem_mem hjlt)
    subst hstop
    exact Entry.start_eq_of_stop_mem hapart (by omega) ha

/-- An empty entry inside the last one, and an entry that the last one follows directly. -/
theorem locate_abutting_third :
    let entries : List Entry := [⟨"mark", 20, 0⟩, ⟨"main", 0, 16⟩, ⟨"tail", 16, 8⟩]
    ∃ l, load 1 entries = .ok l ∧
      (entries.Pairwise fun e e' => Disjoint e.bytes e'.bytes) ∧
      Abutting entries l 2 ⟨"tail", 16, 8⟩ 16 ∧ l.FoundAt 16 1 ∧
      Abutting entries l 2 ⟨"tail", 16, 8⟩ 20 ∧ l.FoundAt 20 0 := by
  intro entries
  have hload : load 1 entries =
      .ok ⟨[⟨"1", "mark", some 20, some 20⟩, ⟨"2", "main", some 0, some 16⟩,
        ⟨"3", "tail", some 16, some 24⟩]⟩ := rfl
  have hdisjoint : entries.Pairwise fun e e' => Disjoint e.bytes e'.bytes := by
    simp [entries, Entry.bytes, Entry.stop]
  exact ⟨_, hload, hdisjoint, locate_abutting hload hdisjoint rfl ⟨by decide, by decide⟩,
    ⟨_, rfl, rfl⟩, locate_abutting hload hdisjoint rfl ⟨by decide, by decide⟩, ⟨_, rfl, rfl⟩⟩

end Layout

end VisitGraph
