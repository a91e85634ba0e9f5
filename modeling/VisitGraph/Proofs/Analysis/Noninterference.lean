import VisitGraph.Diagram.Dot
import VisitGraph.Proofs.Diagram.Renaming
import VisitGraph.Proofs.Itinerary.Pattern

/-! # Noninterference of names and addresses

An analysis sees of the functions only which places of the itinerary hold the same one. Two traces
through two layouts, whose itineraries have one pattern, are analysed alike: the ids of the one are
renamed to those of the other, and all that is computed follows. -/

namespace VisitGraph.Analysis

/-- The analysis is another one with the nodes renamed. What it tells of the nodes comes in the same
order, with the same numbers, bands, emphasis, colors and labels of arrows. -/
structure Mirrors (ρ : String → String) (a a' : Analysis) : Prop where
  itinerary : a'.itinerary.map (·.id) = (a.itinerary.map (·.id)).map ρ
  bijective : Set.BijOn ρ {id | id ∈ a.itinerary.map (·.id)} {id | id ∈ a'.itinerary.map (·.id)}
  start : ρ Routine.start.id = Routine.start.id
  exit : ρ Routine.exit.id = Routine.exit.id
  distinct : a'.distinct.map (·.id) = (a.distinct.map (·.id)).map ρ
  mean : a'.statistics.mean = a.statistics.mean
  spread : a'.statistics.spread = a.statistics.spread
  calls : a'.statistics.calls = a.statistics.calls.rename ρ
  bands : a'.statistics.bands = a.statistics.bands.rename ρ
  transitions : a'.transitions = (a.transitions.map (List.map (Transition.rename ρ))).rename ρ
  diagram : Diagram.Mirrors ρ a.diagram a'.diagram

/-- The printed itineraries, the printed transitions and the drawings do not differ. -/
structure SameTexts (a a' : Analysis) : Prop where
  sequence : a.sequenceText = a'.sequenceText
  adjacency : ∃ text, a.adjacencyText = .ok text ∧ a'.adjacencyText = .ok text
  dot : a.diagram.toDot = a'.diagram.toDot

variable {first first' : Int} {entries entries' : List Entry} {l l' : Layout} {name : String}
  {samples samples' : List Int} {a a' : Analysis}

theorem map_id_distinct (h : Layout.load first entries = .ok l) (ha : Parts name l samples a) :
    a.distinct.map (·.id) = (visits l samples).eraseDups := by
  rw [ha.distinct, map_id_eraseDups_ofTrace h]

/-- Only the statistics can fail. -/
theorem ofSamples_eq_error {fault : Fault} :
    ofSamples name l samples = .error fault ↔
      Statistics.ofVisits (visits l samples) = .error fault := by
  have hanalysis : ofSamples name l samples = Statistics.ofVisits (visits l samples) >>= fun s =>
      Diagram.assemble name (Itinerary.ofTrace l samples).eraseDups s
        (Transition.ofVisits (visits l samples)) >>= fun d =>
          pure ⟨l, Itinerary.ofTrace l samples, (Itinerary.ofTrace l samples).eraseDups, s,
            Transition.ofVisits (visits l samples), d⟩ := rfl
  rw [hanalysis, bind_eq_error]
  refine ⟨?_, Or.inl⟩
  rintro (herror | ⟨s, -, herror⟩)
  · exact herror
  · obtain ⟨d, hd⟩ := Diagram.succeeds_assemble name (Itinerary.ofTrace l samples).eraseDups s
      (visits l samples)
    rw [hd] at herror
    exact absurd herror pure_ne_error

/-! ## Renaming -/

theorem exists_renaming (h : Layout.load first entries = .ok l)
    (h' : Layout.load first' entries' = .ok l')
    (hpattern : SamePattern (Itinerary.ofTrace l samples) (Itinerary.ofTrace l' samples')) :
    ∃ ρ : Equiv.Perm String, visits l' samples' = (visits l samples).map ρ := by
  refine (hpattern.map ?_ ?_).exists_perm
  · intro r hr q hq hid
    exact eq_of_id_eq_of_mem_ofTrace h hr hq hid
  · intro r hr q hq hid
    exact eq_of_id_eq_of_mem_ofTrace h' hr hq hid

/-- Start comes first and exit last, so a renaming of the visits keeps them. -/
theorem rename_ends {ρ : String → String}
    (hvisits : visits l' samples' = (visits l samples).map ρ) :
    ρ Routine.start.id = Routine.start.id ∧ ρ Routine.exit.id = Routine.exit.id := by
  rw [visits_eq, visits_eq] at hvisits
  have hhead := congrArg List.head? hvisits
  have hlast := congrArg List.getLast? hvisits
  simp only [List.cons_append, List.map_cons, List.head?_cons, Option.some.injEq] at hhead
  simp only [List.map_append, List.map_cons, List.map_nil, List.getLast?_append,
    List.getLast?_singleton, Option.some_or, Option.some.injEq] at hlast
  exact ⟨hhead.symm, hlast.symm⟩

theorem mirrors_of_parts (h : Layout.load first entries = .ok l)
    (h' : Layout.load first' entries' = .ok l') {ρ : String → String} (hρ : Function.Injective ρ)
    (hvisits : visits l' samples' = (visits l samples).map ρ) (ha : Parts name l samples a)
    (ha' : Parts name l' samples' a') : Mirrors ρ a a' := by
  have hitinerary : a'.itinerary.map (·.id) = (a.itinerary.map (·.id)).map ρ := by
    rw [ha.itinerary, ha'.itinerary]
    exact hvisits
  have hdistinct : a'.distinct.map (·.id) = (a.distinct.map (·.id)).map ρ := by
    rw [map_id_distinct h ha, map_id_distinct h' ha', hvisits,
      eraseDups_map_of_injOn fun _ _ _ _ heq => hρ heq]
  have hstatistics : a'.statistics = a.statistics.rename ρ := by
    have hsome := ha'.statistics
    rw [hvisits, Statistics.ofVisits_map hρ, ha.statistics] at hsome
    exact (Except.ok.inj hsome).symm
  have htransitions :
      a'.transitions = (a.transitions.map (List.map (Transition.rename ρ))).rename ρ := by
    rw [ha.transitions, ha'.transitions, hvisits, Transition.ofVisits_map hρ]
  obtain ⟨hstart, hexit⟩ := rename_ends hvisits
  refine ⟨hitinerary, ?_, hstart, hexit, hdistinct, ?_, ?_, ?_, ?_, htransitions, ?_⟩
  · have himage : {id | id ∈ a'.itinerary.map (·.id)} =
        Set.image ρ {id | id ∈ a.itinerary.map (·.id)} := by
      rw [hitinerary]
      exact Set.ext fun id => List.mem_map
    rw [himage]
    exact hρ.injOn.bijOn_image
  · rw [hstatistics]
    rfl
  · rw [hstatistics]
    rfl
  · rw [hstatistics]
    rfl
  · rw [hstatistics]
    rfl
  · have hdiagram := ha'.diagram
    rw [hstatistics, htransitions] at hdiagram
    exact Diagram.mirrors_of_assemble hρ hdistinct ha.diagram hdiagram

/-! ## The same ids -/

theorem sameTexts_of_parts (h : Layout.load first entries = .ok l)
    (h' : Layout.load first' entries' = .ok l') (ha : Parts name l samples a)
    (ha' : Parts name l' samples' a') (hids : a.itinerary.map (·.id) = a'.itinerary.map (·.id)) :
    SameTexts a a' := by
  have hvisits : visits l samples = visits l' samples' := by
    rw [visits, visits, ← ha.itinerary, ← ha'.itinerary, hids]
  have hdistinct : a.distinct.map (·.id) = a'.distinct.map (·.id) := by
    rw [map_id_distinct h ha, map_id_distinct h' ha', hvisits]
  have hstatistics : a.statistics = a'.statistics := by
    have hsome := ha.statistics
    rw [hvisits, ha'.statistics] at hsome
    exact (Except.ok.inj hsome).symm
  have htransitions : a.transitions = a'.transitions := by
    rw [ha.transitions, ha'.transitions, hvisits]
  have hdiagram : a.diagram = a'.diagram := by
    have hsome := ha.diagram
    rw [hstatistics, htransitions, Diagram.assemble_congr name _ _ hdistinct, ha'.diagram] at hsome
    exact (Except.ok.inj hsome).symm
  refine ⟨?_, ?_, ?_⟩
  · rw [sequenceText, sequenceText, Printout.sequence, Printout.sequence, hids]
  · obtain ⟨text, htext⟩ := Transition.succeeds_adjacency (visits l' samples')
    rw [← ha'.transitions] at htext
    refine ⟨text, ?_, htext⟩
    rw [adjacencyText, htransitions, htext]
  · rw [hdiagram]

/-- Two runs through loaded layouts, whose itineraries have the same pattern of equal places, fail
alike or give analyses of which the one is the other with the nodes renamed; and if the ids, too,
are the same at each place, so are the texts. -/
theorem ofSamples_noninterference (h : Layout.load first entries = .ok l)
    (h' : Layout.load first' entries' = .ok l') (name : String) (samples samples' : List Int)
    (hpattern : SamePattern (Itinerary.ofTrace l samples) (Itinerary.ofTrace l' samples')) :
    (∀ fault, ofSamples name l samples = .error fault ↔
      ofSamples name l' samples' = .error fault) ∧
    (∀ a a', ofSamples name l samples = .ok a → ofSamples name l' samples' = .ok a' →
      (∃ ρ, Mirrors ρ a a') ∧
        (a.itinerary.map (·.id) = a'.itinerary.map (·.id) → SameTexts a a')) ∧
    (samples.length ≤ 2 ^ 26 - 2 →
      ∃ a a', ofSamples name l samples = .ok a ∧ ofSamples name l' samples' = .ok a') := by
  obtain ⟨ρ, hvisits⟩ := exists_renaming h h' hpattern
  have hfault : ∀ fault, ofSamples name l samples = .error fault ↔
      ofSamples name l' samples' = .error fault := by
    intro fault
    rw [ofSamples_eq_error, ofSamples_eq_error, hvisits, Statistics.ofVisits_map ρ.injective]
    cases Statistics.ofVisits (visits l samples) <;> simp [Except.map]
  refine ⟨hfault, ?_, ?_⟩
  · intro a a' ha ha'
    have hparts := parts_of_ofSamples ha
    have hparts' := parts_of_ofSamples ha'
    refine ⟨⟨ρ, ?_⟩, ?_⟩
    · exact mirrors_of_parts h h' ρ.injective hvisits hparts hparts'
    · exact sameTexts_of_parts h h' hparts hparts'
  · intro hlength
    obtain ⟨a, ha⟩ := exists_ofSamples name l hlength
    cases ha' : ofSamples name l' samples' with
    | error fault =>
        rw [(hfault fault).mpr ha'] at ha
        cases ha
    | ok a' => exact ⟨a, a', ha, rfl⟩

/-- Layouts with other functions at other addresses, one of them with other ids. -/
theorem ofSamples_noninterference_swap :
    ∃ l l' l'' a a' a'', Layout.load 1 [⟨"f", 0, 15⟩, ⟨"g", 16, 15⟩] = .ok l ∧
      Layout.load 7 [⟨"v", 40, 2⟩, ⟨"u", 10, 9⟩] = .ok l' ∧
      Layout.load 1 [⟨"u", 10, 9⟩, ⟨"v", 40, 2⟩] = .ok l'' ∧
      ofSamples "swap" l [3, 20, 99, 21, 4] = .ok a ∧
      ofSamples "swap" l' [12, 13, 41, 19] = .ok a' ∧
      ofSamples "swap" l'' [12, 13, 41, 19] = .ok a'' ∧
      (∃ ρ, Mirrors ρ a a') ∧ SameTexts a a'' := by
  have hload : Layout.load 1 [⟨"f", 0, 15⟩, ⟨"g", 16, 15⟩] =
      .ok ⟨[⟨"1", "f", some 0, some 15⟩, ⟨"2", "g", some 16, some 31⟩]⟩ := rfl
  have hload' : Layout.load 7 [⟨"v", 40, 2⟩, ⟨"u", 10, 9⟩] =
      .ok ⟨[⟨"7", "v", some 40, some 42⟩, ⟨"8", "u", some 10, some 19⟩]⟩ := rfl
  have hload'' : Layout.load 1 [⟨"u", 10, 9⟩, ⟨"v", 40, 2⟩] =
      .ok ⟨[⟨"1", "u", some 10, some 19⟩, ⟨"2", "v", some 40, some 42⟩]⟩ := rfl
  obtain ⟨-, hmirrors, hsome⟩ := ofSamples_noninterference hload hload' "swap"
    [3, 20, 99, 21, 4] [12, 13, 41, 19] (by simp only [Itinerary.ofTrace_eq]; decide)
  obtain ⟨-, htexts, hsome'⟩ := ofSamples_noninterference hload hload'' "swap"
    [3, 20, 99, 21, 4] [12, 13, 41, 19] (by simp only [Itinerary.ofTrace_eq]; decide)
  obtain ⟨a, a', ha, ha'⟩ := hsome (by decide)
  obtain ⟨-, a'', -, ha''⟩ := hsome' (by decide)
  refine ⟨_, _, _, a, a', a'', hload, hload', hload'', ha, ha', ha'', ?_, ?_⟩
  · exact (hmirrors a a' ha ha').1
  · refine (htexts a a'' ha ha'').2 ?_
    rw [(parts_of_ofSamples ha).itinerary, (parts_of_ofSamples ha'').itinerary,
      Itinerary.ofTrace_eq, Itinerary.ofTrace_eq]
    decide

end VisitGraph.Analysis
