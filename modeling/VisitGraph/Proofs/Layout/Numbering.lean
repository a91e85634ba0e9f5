import VisitGraph.Proofs.Layout.Loading

/-! # Numbered layouts

Loading stops at the first entry with a negative number in it. If there is none, the routines are
those of the entries with ids counted up in order, and the ids tell the routines apart, from each
other and from the ends of an itinerary, also where names and addresses do not. -/

namespace VisitGraph.Layout

/-- The routine has this id, the name of the entry, and its interval, which does not end before it
starts. -/
structure StandsFor (r : Routine) (id : String) (e : Entry) : Prop where
  id : r.id = id
  name : r.name = e.name
  first : r.first? = some e.start
  last : r.last? = some (e.start + e.length)
  le : e.start ≤ e.start + e.length

/-- There is one routine for each entry, in order, and the ids are counted up from the first. -/
structure Numbered (first : Int) (entries : List Entry) (l : Layout) : Prop where
  size : l.size = entries.length
  routine : ∀ (i : ℕ) (e : Entry), entries[i]? = some e →
    ∃ r, l.routines[i]? = some r ∧ StandsFor r (toString (first + i)) e

/-- No two routines share an id, and none has the id of an end of an itinerary, so that routines are
equal exactly if their ids are. -/
structure Identified (l : Layout) : Prop where
  nodup : (l.routines.map (·.id)).Nodup
  ends : ∀ r ∈ l.routines, r.id ≠ Routine.start.id ∧ r.id ≠ Routine.exit.id
  eq_iff : ∀ r ∈ l.routines, ∀ r' ∈ l.routines, r = r' ↔ r.id = r'.id

variable {first : Int} {entries : List Entry} {l : Layout}

theorem standsFor_placed (id : String) {e : Entry} (h : 0 ≤ e.length) :
    StandsFor (placed id e) id e :=
  ⟨rfl, rfl, rfl, rfl, by omega⟩

theorem numbered_of_load (h : load first entries = .ok l) : Numbered first entries l := by
  obtain ⟨hsigns, hroutines⟩ := load_eq_ok.mp h
  refine ⟨?_, fun i e hentry => ?_⟩
  · rw [size, ← hroutines]
    simp
  · have hlength := (hsigns e (List.mem_of_getElem? hentry)).2
    refine ⟨placed (toString (first + i)) e, ?_, standsFor_placed _ hlength⟩
    rw [getElem?_routines_of_load h, hentry, Option.map_some]

theorem identified_of_load (h : load first entries = .ok l) : Identified l := by
  refine ⟨?_, fun r hr => ?_, fun r hr r' hr' => ?_⟩
  · rw [map_id_of_load h]
    exact nodup_ids first entries.length
  · exact ⟨id_ne_start_of_load h hr, id_ne_exit_of_load h hr⟩
  · exact ⟨congrArg Routine.id, eq_of_id_eq_of_load h hr hr'⟩

theorem exists_load_eq_error_iff :
    (∃ fault, load first entries = .error fault) ↔ ∃ e ∈ entries, e.start < 0 ∨ e.length < 0 := by
  simp only [load_eq_error, exists_firstDefect_iff, exists_entryDefect_iff]

/-- Entries cannot be loaded exactly if some number in them is negative. The fault is the one of the
first such entry: its start if that is negative, or else its length. All other entries are loaded,
into a layout with one routine for each, whose ids tell the routines apart. -/
theorem load_outcome (first : Int) (entries : List Entry) :
    ((∃ fault, load first entries = .error fault) ↔
        ∃ e ∈ entries, e.start < 0 ∨ e.length < 0) ∧
      (∀ fault, load first entries = .error fault ↔ FirstDefect EntryDefect entries fault) ∧
      ((∀ e ∈ entries, 0 ≤ e.start ∧ 0 ≤ e.length) →
        ∃ l, load first entries = .ok l ∧ Numbered first entries l ∧ Identified l) := by
  refine ⟨exists_load_eq_error_iff, fun fault => load_eq_error, fun hsigns => ?_⟩
  obtain ⟨l, h⟩ := exists_load hsigns first
  exact ⟨l, h, numbered_of_load h, identified_of_load h⟩

/-- Ids count up through zero and keep apart what is listed twice; of two bad entries the first one
is told. -/
theorem load_outcome_repeated :
    (∃ l, load (-1) [⟨"f", 0, 4⟩, ⟨"f", 0, 4⟩, ⟨"g", 4, 0⟩] = .ok l ∧
      Numbered (-1) [⟨"f", 0, 4⟩, ⟨"f", 0, 4⟩, ⟨"g", 4, 0⟩] l ∧ Identified l ∧
      l.routines.map (·.id) = ["-1", "0", "1"]) ∧
    load 1 [⟨"f", 0, 4⟩, ⟨"g", -2, -1⟩, ⟨"h", 3, -1⟩] = .error (.negativeStart "g") := by
  obtain ⟨l, h, hnumbered, hidentified⟩ :=
    (load_outcome (-1) [⟨"f", 0, 4⟩, ⟨"f", 0, 4⟩, ⟨"g", 4, 0⟩]).2.2 (by simp)
  have hids : l.routines.map (·.id) = ["-1", "0", "1"] := by
    rw [map_id_of_load h]
    rfl
  have hfine : ∀ fault, ¬ EntryDefect ⟨"f", 0, 4⟩ fault := fun fault hdefect =>
    absurd (exists_entryDefect_iff.mp ⟨fault, hdefect⟩) (by decide)
  refine ⟨⟨l, h, hnumbered, hidentified, hids⟩, ((load_outcome 1 _).2.1 _).mpr ?_⟩
  exact ⟨[⟨"f", 0, 4⟩], ⟨"g", -2, -1⟩, [⟨"h", 3, -1⟩], rfl, by simpa using hfine,
    .start (by decide)⟩

end VisitGraph.Layout
