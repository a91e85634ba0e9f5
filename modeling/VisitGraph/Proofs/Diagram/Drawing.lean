import VisitGraph.Proofs.Diagram.Statements
import VisitGraph.Proofs.Diagram.WellFormed

/-! # Diagrams told by their text

The ids of an analysis are names and decimal numbers, and its labels hold nothing but these, counts
and shares. Some are quoted in the text of the diagram and some are not, yet the text tells them
all. -/

namespace VisitGraph

namespace Dot

open Text

/-- The text of a diagram is the header for its name, a line for each node and for each arrow in
their order, and the closing brace. Each line is read as what it stands for, and as nothing else. -/
structure Tells (name : String) (d : Diagram) : Prop where
  text : d.toDot = header name ++
    Printout.ofLines (d.nodes.map nodeLine ++ d.arrows.map arrowLine ++ ["\x7d"])
  lines : linesOf (Printout.ofLines
      (d.nodes.map nodeLine ++ d.arrows.map arrowLine ++ ["\x7d"])) =
    d.nodes.map nodeLine ++ d.arrows.map arrowLine ++ ["\x7d"]
  nodes : ∀ n ∈ d.nodes, readNode? (nodeLine n) = some n ∧ readArrow? (nodeLine n) = none
  arrows : ∀ w ∈ d.arrows, readArrow? (arrowLine w) = some w ∧ readNode? (arrowLine w) = none
  closing : readNode? "\x7d" = none ∧ readArrow? "\x7d" = none

theorem Presentable.tells {d : Diagram} (h : Presentable d) : Tells d.name d := by
  constructor
  · exact h.toDot_eq
  · exact h.linesOf_bodyLines
  · intro n hn
    exact ⟨(h.nodes n hn).readNode?_nodeLine, (h.nodes n hn).readArrow?_nodeLine⟩
  · intro w hw
    exact ⟨(h.arrows w hw).readArrow?_arrowLine, (h.arrows w hw).readNode?_arrowLine⟩
  · exact ⟨by decide, by decide⟩

theorem quotable_bandColor (band : Band) : Quotable band.color := by
  cases band <;> decide

theorem quotable_emphasisColor (emphasis : Emphasis) :
    ∀ color ∈ emphasis.color?, Quotable color := by
  cases emphasis <;> decide

end Dot

namespace Analysis

open Dot

variable {first : Int} {entries : List Entry} {l : Layout} {name : String} {samples : List Int}
  {a : Analysis}

theorem plain_of_mem_visits (h : Layout.load first entries = .ok l) :
    ∀ id ∈ visits l samples, Plain id.toList := by
  rw [visits_eq, List.cons_append, List.forall_mem_cons, List.forall_mem_append,
    List.forall_mem_singleton, List.forall_mem_map]
  exact ⟨by decide,
    fun r hr => Layout.plain_id_of_load h (Itinerary.mem_routines_of_mem_interior hr), by decide⟩

theorem declarable_of_mem_nodes (h : Layout.load first entries = .ok l)
    (ha : Parts name l samples a) : ∀ n ∈ a.diagram.nodes, Declarable n := by
  intro n hn
  have hid : Quotable n.id := by
    have hmem := (mem_nodes_iff_mem_visits h ha).mp (List.mem_map_of_mem hn)
    exact quotable_of_plain (plain_of_mem_visits h n.id hmem)
  rw [(Diagram.assemble_eq_ok.mp ha.diagram).2.1] at hn
  obtain ⟨r, -, rfl⟩ := List.mem_map.mp hn
  refine ⟨hid, ?_, ?_⟩
  · have hcount := quotable_of_plain (plain_toString (a.statistics.callsOf r.id))
    have hlabel : (Node.ofRoutine a.statistics r).label =
        r.id ++ "(" ++ toString (a.statistics.callsOf r.id) ++ ")" := by
      simp [Node.ofRoutine, toString]
    rw [hlabel]
    exact ((hid.append (by decide)).append hcount).append (by decide)
  · rw [Node.ofRoutine]
    cases a.statistics.bandOf r.id with
    | none => exact (by decide : Quotable Node.plainColor)
    | some band => exact quotable_bandColor band

theorem drawable_of_mem_arrows (h : Layout.load first entries = .ok l)
    (ha : Parts name l samples a) : ∀ w ∈ a.diagram.arrows, Drawable w := by
  intro w hw
  obtain ⟨hsource, htarget⟩ := (wellFormed_of_parts h ha).closed w hw
  have hsource := plain_of_mem_visits h _ ((mem_nodes_iff_mem_visits h ha).mp hsource)
  have htarget := plain_of_mem_visits h _ ((mem_nodes_iff_mem_visits h ha).mp htarget)
  obtain ⟨t, -, hdepicts⟩ := exists_rel_of_mem (ordered_of_parts h ha).arrows.flip hw
  constructor
  · exact quotable_of_plain hsource
  · exact quotable_of_plain htarget
  · exact hsource.notMem (by decide)
  · exact htarget.notMem (by decide)
  · exact quotable_of_plain (Numeric.Quantity.plain_shareText hdepicts.label)
  · rw [hdepicts.color]
    exact quotable_emphasisColor t.emphasis

theorem presentable_of_parts (h : Layout.load first entries = .ok l)
    (ha : Parts name l samples a) : Presentable a.diagram :=
  ⟨declarable_of_mem_nodes h ha, drawable_of_mem_arrows h ha⟩

/-- The text of the diagram of an analysis tells each node and each arrow in order, so that with the
name given it tells the diagram. There is a diagram for every trace that is not too long for exact
sums. -/
theorem toDot_ofSamples (h : Layout.load first entries = .ok l) (name : String)
    (samples : List Int) :
    (∀ a, ofSamples name l samples = .ok a → Tells name a.diagram ∧
      ∀ first' entries' l' samples' a', Layout.load first' entries' = .ok l' →
        ofSamples name l' samples' = .ok a' → a.diagram.toDot = a'.diagram.toDot →
          a.diagram = a'.diagram) ∧
      (samples.length ≤ 2 ^ 26 - 2 → ∃ a, ofSamples name l samples = .ok a) := by
  refine ⟨?_, exists_ofSamples name l⟩
  intro a ha
  have hparts := parts_of_ofSamples ha
  have hname := (Diagram.assemble_eq_ok.mp hparts.diagram).1
  have hpresentable := presentable_of_parts h hparts
  refine ⟨hname ▸ hpresentable.tells, ?_⟩
  intro first' entries' l' samples' a' h' ha' htext
  have hparts' := parts_of_ofSamples ha'
  have hname' := (Diagram.assemble_eq_ok.mp hparts'.diagram).1
  exact hpresentable.eq_of_toDot_eq (presentable_of_parts h' hparts') (hname.trans hname'.symm)
    htext

/-- Ids below zero, and a name that takes up two lines. -/
theorem toDot_ofSamples_negative :
    ∃ l a, Layout.load (-2) [⟨"f", 0, 15⟩, ⟨"g", 16, 15⟩] = .ok l ∧
      ofSamples "two\nlines" l [3, 20, 4] = .ok a ∧ Tells "two\nlines" a.diagram := by
  have hload : Layout.load (-2) [⟨"f", 0, 15⟩, ⟨"g", 16, 15⟩] =
      .ok ⟨[⟨"-2", "f", some 0, some 15⟩, ⟨"-1", "g", some 16, some 31⟩]⟩ := rfl
  have htells := toDot_ofSamples hload "two\nlines" [3, 20, 4]
  obtain ⟨a, ha⟩ := htells.2 (by decide)
  exact ⟨_, a, hload, ha, (htells.1 a ha).1⟩

end Analysis

end VisitGraph
