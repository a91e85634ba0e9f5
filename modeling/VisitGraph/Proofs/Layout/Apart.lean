import VisitGraph.Proofs.Itinerary.Pattern
import VisitGraph.Proofs.Layout.Abutting

/-! # Entries that lie apart

Entries lie apart if no two of them share an address, the addresses behind their bytes included. An
address is then in one routine at most, and where it is located does not depend on the order of the
routines. Listed in another order, the same functions only get other ids. -/

namespace VisitGraph

/-- The addresses that the routine of the entry holds: those of its bytes and the one behind. -/
def Entry.reach (e : Entry) : Set Int :=
  Set.Icc e.start e.stop

/-- No address is in both routines. -/
def Routine.DisjointFrom (r q : Routine) : Prop :=
  ∀ a, r.Holds a → ¬ q.Holds a

instance : Std.Symm Routine.DisjointFrom :=
  ⟨fun _ _ hdisjoint a hq hr => hdisjoint a hr hq⟩

/-- The same routine with its id renamed. -/
def Routine.rename (ρ : String → String) (r : Routine) : Routine :=
  { r with id := ρ r.id }

theorem Routine.rename_injective {ρ : String → String} (hρ : Function.Injective ρ) :
    Function.Injective (rename ρ) := by
  rintro ⟨id, name, first?, last?⟩ ⟨id', name', first?', last?'⟩ h
  simp only [rename, mk.injEq] at h
  obtain ⟨hid, rfl, rfl, rfl⟩ := h
  rw [hρ hid]

theorem samePattern_of_nodup {α β : Type} {xs : List α} {ys : List β}
    (hlength : xs.length = ys.length) (hxs : xs.Nodup) (hys : ys.Nodup) : SamePattern xs ys := by
  refine ⟨hlength, fun i hi j _ => ?_⟩
  rw [List.getElem?_inj hi hxs, List.getElem?_inj (hlength ▸ hi) hys]

namespace Layout

/-! ## At most one routine for an address -/

/-- No address is in two of the routines. -/
def Apart (l : Layout) : Prop :=
  l.routines.Pairwise Routine.DisjointFrom

variable {first first' : Int} {entries entries' : List Entry} {l l' : Layout} {a : Int}

theorem apart_of_load (h : load first entries = .ok l)
    (hapart : entries.Pairwise fun e e' => Disjoint e.reach e'.reach) : l.Apart := by
  rw [← map_snd_zip_ids first entries, List.pairwise_map] at hapart
  rw [Apart, ← (load_eq_ok.mp h).2, List.pairwise_map]
  refine hapart.imp fun hdisjoint a ha ha' => ?_
  exact Set.disjoint_left.mp hdisjoint (holds_placed_iff.mp ha) (holds_placed_iff.mp ha')

theorem Apart.eq_of_holds (h : l.Apart) {r q : Routine} (hr : r ∈ l.routines) (hq : q ∈ l.routines)
    (ha : r.Holds a) (ha' : q.Holds a) : r = q := by
  by_contra hne
  exact h.forall hr hq hne a ha ha'

/-- Of routines apart, the one that holds the address is found wherever it stands. -/
theorem Apart.locate_eq_some_iff (h : l.Apart) {r : Routine} :
    l.locate a = some r ↔ r ∈ l.routines ∧ r.Holds a := by
  have hfound : ∀ q, l.locate a = some q → q ∈ l.routines ∧ q.Holds a := fun q hq => by
    obtain ⟨before, after, hroutines, hholds, -⟩ := Layout.locate_eq_some_iff.mp hq
    exact ⟨by simp [hroutines], hholds⟩
  refine ⟨hfound r, fun ⟨hr, ha⟩ => ?_⟩
  cases hlocate : l.locate a with
  | none => exact absurd ha (locate_eq_none_iff.mp hlocate r hr)
  | some q =>
      obtain ⟨hq, ha'⟩ := hfound q hlocate
      rw [h.eq_of_holds hq hr ha' ha]

/-! ## The same routines under other ids -/

/-- The routines of the second layout are those of the first with their ids renamed, in some order.
The ids of the ends of an itinerary stay. -/
structure Renumbers (ρ : String → String) (l l' : Layout) : Prop where
  routines : l'.routines.Perm (l.routines.map (Routine.rename ρ))
  start : ρ Routine.start.id = Routine.start.id
  exit : ρ Routine.exit.id = Routine.exit.id

namespace Renumbers

variable {ρ : String → String}

theorem apart (h : Renumbers ρ l l') (hapart : l.Apart) : l'.Apart := by
  rw [Apart, h.routines.pairwise_iff fun hdisjoint => Std.Symm.symm _ _ hdisjoint,
    List.pairwise_map]
  exact hapart

theorem locate_eq (h : Renumbers ρ l l') (hapart : l.Apart) (a : Int) :
    l'.locate a = (l.locate a).map (Routine.rename ρ) := by
  refine Option.ext fun r => ?_
  rw [(h.apart hapart).locate_eq_some_iff, h.routines.mem_iff, List.mem_map,
    Option.map_eq_some_iff]
  simp only [hapart.locate_eq_some_iff]
  constructor
  · rintro ⟨⟨q, hq, rfl⟩, ha⟩
    exact ⟨q, ⟨hq, ha⟩, rfl⟩
  · rintro ⟨q, ⟨hq, ha⟩, rfl⟩
    exact ⟨⟨q, hq, rfl⟩, ha⟩

theorem hits_eq (h : Renumbers ρ l l') (hapart : l.Apart) (samples : List Int) :
    l'.hits samples = (l.hits samples).map (Routine.rename ρ) := by
  rw [hits, hits, List.map_filterMap]
  exact List.filterMap_congr fun a _ => h.locate_eq hapart a

end Renumbers

/-! ## Entries in another order -/

/-- The id of an entry in a list without repeats. -/
def idOf (first : Int) (entries : List Entry) (e : Entry) : String :=
  toString (first + entries.idxOf e)

theorem idOf_inj {e e' : Entry} (he : e ∈ entries)
    (h : idOf first entries e = idOf first entries e') : e = e' := by
  have hsum : first + (entries.idxOf e : Int) = first + entries.idxOf e' := Int.repr_inj.mp h
  exact (List.idxOf_inj he).mp (by omega)

theorem routines_eq_map (h : load first entries = .ok l) (hnodup : entries.Nodup) :
    l.routines = entries.map fun e => placed (idOf first entries e) e := by
  refine List.ext_getElem? fun i => ?_
  rw [getElem?_routines_of_load h, List.getElem?_map]
  rcases Nat.lt_or_ge i entries.length with hi | hi
  · rw [List.getElem?_eq_getElem hi, Option.map_some, Option.map_some, idOf,
      hnodup.idxOf_getElem i hi]
  · rw [List.getElem?_eq_none hi]
    rfl

/-- The ends of an itinerary and the entries, by their ids. -/
def knownIds (first : Int) (entries listed : List Entry) : List String :=
  Routine.start.id :: Routine.exit.id :: listed.map (idOf first entries)

theorem nodup_knownIds {listed : List Entry} (hnodup : listed.Nodup) (hsub : listed ⊆ entries) :
    (knownIds first entries listed).Nodup := by
  have hids : (listed.map (idOf first entries)).Nodup :=
    hnodup.map_on fun e he e' _ h => idOf_inj (hsub he) h
  have hstart : Routine.start.id ∉ listed.map (idOf first entries) := fun hmem => by
    obtain ⟨e, -, he⟩ := List.mem_map.mp hmem
    exact toString_ne_of_mem (c := 'S') (by simp [Routine.start]) (by decide) (by decide) _ he
  have hexit : Routine.exit.id ∉ listed.map (idOf first entries) := fun hmem => by
    obtain ⟨e, -, he⟩ := List.mem_map.mp hmem
    exact toString_ne_of_mem (c := 'E') (by simp [Routine.exit]) (by decide) (by decide) _ he
  have hends : Routine.start.id ≠ Routine.exit.id := by decide
  simp [knownIds, hids, hstart, hexit, hends]

/-- Entries without repeats that are listed in another order only get other ids. -/
theorem exists_renumbers (h : load first entries = .ok l) (h' : load first' entries' = .ok l')
    (hnodup : entries.Nodup) (hperm : entries.Perm entries') :
    ∃ ρ : Equiv.Perm String, Renumbers ρ l l' := by
  have hpattern : SamePattern (knownIds first entries entries) (knownIds first' entries' entries) :=
    samePattern_of_nodup (by simp [knownIds]) (nodup_knownIds hnodup (List.Subset.refl _))
      (nodup_knownIds hnodup hperm.subset)
  obtain ⟨ρ, hρ⟩ := hpattern.exists_perm
  simp only [knownIds, List.map_cons, List.cons.injEq, List.map_map] at hρ
  obtain ⟨hstart, hexit, hids⟩ := hρ
  refine ⟨ρ, ?_, hstart.symm, hexit.symm⟩
  have hplaced : ∀ e ∈ entries, placed (idOf first' entries' e) e =
      (placed (idOf first entries e) e).rename ρ := fun e he => by
    rw [List.map_inj_left.mp hids e he]
    rfl
  rw [routines_eq_map h hnodup, routines_eq_map h' (hperm.nodup_iff.mp hnodup), List.map_map]
  exact (hperm.symm.map _).trans (List.Perm.of_eq (List.map_congr_left hplaced))

end Layout

end VisitGraph
