import Mathlib.Data.List.Nodup
import Std.Data.String.ToInt
import VisitGraph.Layout
import VisitGraph.Proofs.Numeric.Written

/-! # Loaded layouts

A loaded layout has one routine for each entry. Its id is a decimal number that no other routine
has, and therefore none of the ids of the ends of an itinerary. -/

namespace VisitGraph

/-- A text with some other character is no decimal number. -/
theorem toString_ne_of_mem {s : String} {c : Char} (hc : c ∈ s.toList) (hdigit : c.isDigit = false)
    (hminus : c ≠ '-') (n : Int) : toString n ≠ s := by
  rintro rfl
  rcases isDigit_or_eq_minus_of_mem_toString hc with h | h
  · simp [hdigit] at h
  · exact hminus h

namespace Layout

/-- The routine of an entry that has no negative number in it. -/
def placed (id : String) (e : Entry) : Routine :=
  ⟨id, e.name, some e.start, some (e.start + e.length)⟩

theorem routine_eq_ok {id : String} {e : Entry} {r : Routine} :
    routine id e = .ok r ↔ (0 ≤ e.start ∧ 0 ≤ e.length) ∧ placed id e = r := by
  rw [routine]
  by_cases hstart : e.start < 0
  · rw [if_pos hstart]
    exact ⟨(nomatch ·), fun h => absurd hstart (by omega)⟩
  · by_cases hlength : e.length < 0
    · rw [if_neg hstart, if_pos hlength]
      exact ⟨(nomatch ·), fun h => absurd hlength (by omega)⟩
    · rw [if_neg hstart, if_neg hlength, Except.ok.injEq]
      exact ⟨fun h => ⟨by omega, h⟩, And.right⟩

@[simp] theorem length_ids (first : Int) (count : ℕ) : (ids first count).length = count := by
  simp [ids]

theorem map_snd_zip_ids (first : Int) (entries : List Entry) :
    ((ids first entries.length).zip entries).map Prod.snd = entries := by
  rw [List.map_snd_zip]
  simp

/-- Loading succeeds if no entry has a negative number in it, and gives the routines in order. -/
theorem load_eq_ok {first : Int} {entries : List Entry} {l : Layout} :
    load first entries = .ok l ↔
      (∀ e ∈ entries, 0 ≤ e.start ∧ 0 ≤ e.length) ∧
        ((ids first entries.length).zip entries).map (fun p => placed p.1 p.2) = l.routines := by
  have hsigns : (∀ p ∈ (ids first entries.length).zip entries, 0 ≤ p.2.start ∧ 0 ≤ p.2.length) ↔
      ∀ e ∈ entries, 0 ≤ e.start ∧ 0 ≤ e.length := by
    conv_rhs => rw [← map_snd_zip_ids first entries]
    rw [List.forall_mem_map]
  have hroutines : ∀ routines, ((ids first entries.length).zip entries).mapM
      (fun p => routine p.1 p.2) = .ok routines ↔
        (∀ e ∈ entries, 0 ≤ e.start ∧ 0 ≤ e.length) ∧
          ((ids first entries.length).zip entries).map (fun p => placed p.1 p.2) = routines := by
    intro routines
    simp only [mapM_eq_ok, routine_eq_ok]
    rw [List.forall₂_and_left, hsigns, ← List.forall₂_eq_eq_eq, List.forall₂_map_left_iff]
  simp only [load, bind_eq_ok, pure_eq_ok]
  constructor
  · rintro ⟨routines, h, rfl⟩
    exact (hroutines _).mp h
  · intro h
    exact ⟨l.routines, (hroutines _).mpr h, rfl⟩

theorem getElem?_routines_of_load {first : Int} {entries : List Entry} {l : Layout}
    (h : load first entries = .ok l) (i : ℕ) :
    l.routines[i]? = entries[i]?.map (placed (toString (first + i))) := by
  rw [← (load_eq_ok.mp h).2, List.getElem?_map]
  cases hentry : entries[i]? with
  | none =>
      have hlength : ((ids first entries.length).zip entries).length ≤ i := by
        simpa using hentry
      rw [List.getElem?_eq_none hlength]
      rfl
  | some e =>
      obtain ⟨hi, -⟩ := List.getElem?_eq_some_iff.mp hentry
      have hid : (ids first entries.length)[i]? = some (toString (first + i)) := by
        simp [ids, hi]
      have hpair : ((ids first entries.length).zip entries)[i]? =
          some (toString (first + i), e) :=
        List.getElem?_zip_eq_some.mpr ⟨hid, hentry⟩
      rw [hpair]
      rfl

theorem exists_load {entries : List Entry} (h : ∀ e ∈ entries, 0 ≤ e.start ∧ 0 ≤ e.length)
    (first : Int) : ∃ l, load first entries = .ok l :=
  ⟨⟨_⟩, load_eq_ok.mpr ⟨h, rfl⟩⟩

/-- What is wrong with an entry: the first of its numbers that is negative. -/
inductive EntryDefect : Entry → Fault → Prop where
  | start {e} (h : e.start < 0) : EntryDefect e (.negativeStart e.name)
  | length {e} (hstart : 0 ≤ e.start) (h : e.length < 0) : EntryDefect e (.negativeLength e.name)

theorem exists_entryDefect_iff {e : Entry} :
    (∃ fault, EntryDefect e fault) ↔ e.start < 0 ∨ e.length < 0 := by
  constructor
  · rintro ⟨fault, h | ⟨-, h⟩⟩
    · exact .inl h
    · exact .inr h
  · intro h
    by_cases hstart : e.start < 0
    · exact ⟨_, .start hstart⟩
    · exact ⟨_, .length (by omega) (by omega)⟩

theorem routine_eq_error {id : String} {e : Entry} {fault : Fault} :
    routine id e = .error fault ↔ EntryDefect e fault := by
  rw [routine]
  constructor
  · intro h
    split at h
    · rename_i hstart
      cases h
      exact .start hstart
    · rename_i hstart
      split at h
      · rename_i hlength
        cases h
        exact .length (by omega) hlength
      · cases h
  · rintro (hstart | ⟨hstart, hlength⟩)
    · exact if_pos hstart
    · rw [if_neg (by omega), if_pos hlength]

/-- Loading fails as the first entry with a negative number in it. -/
theorem load_eq_error {first : Int} {entries : List Entry} {fault : Fault} :
    load first entries = .error fault ↔ FirstDefect EntryDefect entries fault := by
  conv_rhs => rw [← map_snd_zip_ids first entries]
  rw [firstDefect_map]
  simp only [load, bind_eq_error, pure_ne_error, and_false, exists_false, or_false, mapM_eq_error,
    routine_eq_error]

theorem exists_id_eq_of_load {first : Int} {entries : List Entry} {l : Layout}
    (h : load first entries = .ok l) {r : Routine} (hr : r ∈ l.routines) :
    ∃ n : Int, r.id = toString n := by
  rw [← (load_eq_ok.mp h).2] at hr
  obtain ⟨⟨id, e⟩, hmem, rfl⟩ := List.mem_map.mp hr
  obtain ⟨i, -, rfl⟩ := List.mem_map.mp (List.of_mem_zip hmem).1
  exact ⟨_, rfl⟩

theorem plain_id_of_load {first : Int} {entries : List Entry} {l : Layout}
    (h : load first entries = .ok l) {r : Routine} (hr : r ∈ l.routines) : Plain r.id.toList := by
  obtain ⟨n, hn⟩ := exists_id_eq_of_load h hr
  rw [hn]
  exact plain_toString n

theorem nodup_ids (first : Int) (count : ℕ) : (ids first count).Nodup := by
  refine List.Nodup.map ?_ List.nodup_range
  intro i j h
  have hsum : first + (i : Int) = first + (j : Int) := Int.repr_inj.mp h
  omega

theorem map_id_of_load {first : Int} {entries : List Entry} {l : Layout}
    (h : load first entries = .ok l) : l.routines.map (·.id) = ids first entries.length := by
  rw [← (load_eq_ok.mp h).2, List.map_map]
  exact List.map_fst_zip (by simp)

/-- Routines of a loaded layout are told apart by their ids. -/
theorem eq_of_id_eq_of_load {first : Int} {entries : List Entry} {l : Layout}
    (h : load first entries = .ok l) {r r' : Routine} (hr : r ∈ l.routines)
    (hr' : r' ∈ l.routines) (hid : r.id = r'.id) : r = r' := by
  have hnd : (l.routines.map (·.id)).Nodup := by
    rw [map_id_of_load h]
    exact nodup_ids first entries.length
  exact List.inj_on_of_nodup_map hnd hr hr' hid

theorem id_ne_start_of_load {first : Int} {entries : List Entry} {l : Layout}
    (h : load first entries = .ok l) {r : Routine} (hr : r ∈ l.routines) :
    r.id ≠ Routine.start.id := by
  obtain ⟨n, hn⟩ := exists_id_eq_of_load h hr
  rw [hn]
  exact toString_ne_of_mem (c := 'S') (by simp [Routine.start]) (by decide) (by decide) n

theorem id_ne_exit_of_load {first : Int} {entries : List Entry} {l : Layout}
    (h : load first entries = .ok l) {r : Routine} (hr : r ∈ l.routines) :
    r.id ≠ Routine.exit.id := by
  obtain ⟨n, hn⟩ := exists_id_eq_of_load h hr
  rw [hn]
  exact toString_ne_of_mem (c := 'E') (by simp [Routine.exit]) (by decide) (by decide) n

end VisitGraph.Layout
