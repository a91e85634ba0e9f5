import VisitGraph.Proofs.Analysis.Order
import VisitGraph.Proofs.Statistics.Renaming
import VisitGraph.Proofs.Transition.Renaming

/-! # Diagrams of renamed nodes

Of a routine the diagram shows only the id. The names of the nodes stand in the diagram, but its
shape, its colors and the labels of its arrows do not depend on them. -/

namespace VisitGraph

variable {ρ : String → String}

/-- The same arrow between renamed nodes. -/
def Arrow.rename (ρ : String → String) (w : Arrow) : Arrow :=
  { w with source := ρ w.source, target := ρ w.target }

/-- A node that shows the same for another name: its label tells the same call count. -/
structure Node.Mirrors (ρ : String → String) (n n' : Node) : Prop where
  id : n'.id = ρ n.id
  label : ∃ count : Int, n.label = s!"{n.id}({count})" ∧ n'.label = s!"{ρ n.id}({count})"
  color : n'.color = n.color
  bold : n'.bold = n.bold

/-- The same diagram of renamed nodes. -/
structure Diagram.Mirrors (ρ : String → String) (d d' : Diagram) : Prop where
  name : d'.name = d.name
  nodes : List.Forall₂ (Node.Mirrors ρ) d.nodes d'.nodes
  arrows : d'.arrows = d.arrows.map (Arrow.rename ρ)

theorem Arrow.ofTransition_rename (ρ : String → String) (t : Transition) :
    ofTransition (t.rename ρ) = (ofTransition t).map (rename ρ) := by
  change (t.probability.shareText >>= fun label => pure _) =
    Except.map (rename ρ) (t.probability.shareText >>= fun label => pure _)
  cases t.probability.shareText <;> rfl

theorem Node.mirrors_ofRoutine (hρ : Function.Injective ρ) (s : Statistics) {r r' : Routine}
    (h : r'.id = ρ r.id) : Mirrors ρ (ofRoutine s r) (ofRoutine (s.rename ρ) r') := by
  have hcalls : (s.rename ρ).callsOf r'.id = s.callsOf r.id := by
    rw [h, Statistics.callsOf_rename hρ]
  have hband : (s.rename ρ).bandOf r'.id = s.bandOf r.id := by
    rw [h, Statistics.bandOf_rename hρ]
  refine ⟨h, ⟨s.callsOf r.id, rfl, ?_⟩, ?_, ?_⟩
  · rw [ofRoutine, hcalls, h]
    rfl
  · rw [ofRoutine, hband, ofRoutine]
  · rw [ofRoutine, hband, ofRoutine]

namespace Diagram

variable {routines routines' : List Routine} {s : Statistics}
  {transitions : Roster String (List Transition)}

/-- The transitions that leave the routines, in their order, are found by the ids. -/
def drawn (ids : List String) (transitions : Roster String (List Transition)) : List Transition :=
  ids.flatMap fun id => (transitions.get? id).getD []

theorem drawn_map_id (routines : List Routine) (transitions : Roster String (List Transition)) :
    (routines.flatMap fun r => (transitions.get? r.id).getD []) =
      drawn (routines.map (·.id)) transitions := by
  rw [drawn, List.flatMap_map]

theorem drawn_rename (hρ : Function.Injective ρ) (ids : List String)
    (transitions : Roster String (List Transition)) :
    drawn (ids.map ρ) ((transitions.map (List.map (Transition.rename ρ))).rename ρ) =
      (drawn ids transitions).map (Transition.rename ρ) := by
  rw [drawn, drawn, List.flatMap_map, List.map_flatMap]
  refine List.flatMap_congr fun id _ => ?_
  rw [Roster.get?_rename hρ, Roster.get?_map]
  cases transitions.get? id <;> rfl

theorem arrows_of_assemble {name : String} {d : Diagram}
    (h : assemble name routines s transitions = .ok d) :
    (drawn (routines.map (·.id)) transitions).mapM Arrow.ofTransition = .ok d.arrows := by
  obtain ⟨-, -, harrows⟩ := assemble_eq_ok.mp h
  rw [drawn_map_id] at harrows
  exact mapM_eq_ok.mpr (harrows.imp fun _ _ => Arrow.ofTransition_eq_ok.mpr)

theorem mirrors_of_assemble (hρ : Function.Injective ρ)
    (hids : routines'.map (·.id) = (routines.map (·.id)).map ρ) {name : String} {d d' : Diagram}
    (hd : assemble name routines s transitions = .ok d)
    (hd' : assemble name routines' (s.rename ρ)
      ((transitions.map (List.map (Transition.rename ρ))).rename ρ) = .ok d') : Mirrors ρ d d' := by
  obtain ⟨hname, hnodes, -⟩ := assemble_eq_ok.mp hd
  obtain ⟨hname', hnodes', -⟩ := assemble_eq_ok.mp hd'
  refine ⟨hname'.trans hname.symm, ?_, ?_⟩
  · have hroutines : List.Forall₂ (· = ·) ((routines.map (·.id)).map ρ) (routines'.map (·.id)) := by
      rw [List.forall₂_eq_eq_eq, hids]
    rw [List.map_map, List.forall₂_map_left_iff, List.forall₂_map_right_iff] at hroutines
    rw [hnodes, hnodes', List.forall₂_map_left_iff, List.forall₂_map_right_iff]
    exact hroutines.imp fun _ _ hid => Node.mirrors_ofRoutine hρ s hid.symm
  · have harrows' := arrows_of_assemble hd'
    rw [hids, drawn_rename hρ, mapM_map_of_comm (Arrow.ofTransition_rename ρ),
      arrows_of_assemble hd] at harrows'
    exact (Except.ok.inj harrows').symm

/-- Routines with the same ids have the same diagram, whatever their names and addresses are. -/
theorem assemble_congr (name : String) (s : Statistics)
    (transitions : Roster String (List Transition))
    (hids : routines.map (·.id) = routines'.map (·.id)) :
    assemble name routines s transitions = assemble name routines' s transitions := by
  have hnodes : ∀ rs : List Routine, rs.map (Node.ofRoutine s) =
      (rs.map (·.id)).map fun id => Node.ofRoutine s ⟨id, id, none, none⟩ := by
    intro rs
    rw [List.map_map]
    rfl
  rw [assemble, assemble, drawn_map_id, drawn_map_id, hnodes, hnodes, hids]

end Diagram

end VisitGraph
