import Mathlib.Data.List.Chain
import VisitGraph.Proofs.Diagram.WellFormed

/-! # Ways through a diagram

The itinerary itself is a way along the arrows from start to exit through all nodes, since every two
neighbours on it are joined by an arrow. -/

namespace VisitGraph

namespace Diagram

/-- Some arrow leads from the one node to the other. -/
def Joined (d : Diagram) (source target : String) : Prop :=
  (source, target) ∈ d.arrows.map Arrow.ends

/-- Arrows lead from the one node to the other, one after another. -/
def Reaches (d : Diagram) : String → String → Prop :=
  Relation.ReflTransGen d.Joined

/-- Every node lies on a way from start to exit. -/
structure Traversable (d : Diagram) : Prop where
  start_mem : Routine.start.id ∈ d.nodes.map (·.id)
  exit_mem : Routine.exit.id ∈ d.nodes.map (·.id)
  from_start : ∀ n ∈ d.nodes, d.Reaches Routine.start.id n.id
  to_exit : ∀ n ∈ d.nodes, d.Reaches n.id Routine.exit.id
  spanned : d.nodes.length - 1 ≤ d.arrows.length

variable {d : Diagram}

theorem reaches_of_isChain_cons {source : String} {ids : List String}
    (h : (source :: ids).IsChain d.Joined) : ∀ id ∈ source :: ids, d.Reaches source id :=
  h.induction (d.Reaches source) _ (fun _ _ hjoined hreaches => hreaches.tail hjoined)
    fun _ => .refl

theorem reaches_of_isChain_concat {target : String} {ids : List String}
    (h : (ids ++ [target]).IsChain d.Joined) : ∀ id ∈ ids ++ [target], d.Reaches id target := by
  refine h.backwards_induction (d.Reaches · target) _
    (fun _ _ hjoined hreaches => hreaches.head hjoined) fun _ => ?_
  rw [List.getLast_concat]
  exact .refl

/-- The last arrow on a way to a node leads to no other, so nodes that are all reached from one of
them have an arrow each but for that one. -/
theorem length_nodes_le_of_reaches (hnodup : (d.nodes.map (·.id)).Nodup) {origin : String}
    (h : ∀ n ∈ d.nodes, d.Reaches origin n.id) : d.nodes.length ≤ d.arrows.length + 1 := by
  have hsubset : d.nodes.map (·.id) ⊆ origin :: d.arrows.map (·.target) := by
    intro id hid
    obtain ⟨n, hn, rfl⟩ := List.mem_map.mp hid
    rcases (h n hn).cases_tail with heq | ⟨source, -, hjoined⟩
    · rw [heq]
      exact List.mem_cons_self
    · obtain ⟨w, hw, hends⟩ := List.mem_map.mp hjoined
      rw [← (Prod.mk.inj hends).2]
      exact List.mem_cons_of_mem _ (List.mem_map_of_mem hw)
  have hle := (List.subperm_of_subset hnodup hsubset).length_le
  rwa [List.length_map, List.length_cons, List.length_map] at hle

end Diagram

namespace Analysis

variable {first : Int} {entries : List Entry} {l : Layout} {name : String} {samples : List Int}
  {a : Analysis}

theorem isChain_joined_visits (h : Layout.load first entries = .ok l)
    (ha : Parts name l samples a) : (visits l samples).IsChain a.diagram.Joined := by
  rw [Transition.isChain_iff_forall_steps]
  intro step hstep
  obtain ⟨w, hw, hends⟩ := (mem_steps_iff_exists_arrow h ha).mp hstep
  exact List.mem_map.mpr ⟨w, hw, hends⟩

theorem traversable_of_parts (h : Layout.load first entries = .ok l)
    (ha : Parts name l samples a) : a.diagram.Traversable := by
  have hchain := isChain_joined_visits h ha
  have hnodes : ∀ n ∈ a.diagram.nodes, n.id ∈ visits l samples := fun n hn =>
    (mem_nodes_iff_mem_visits h ha).mp (List.mem_map_of_mem hn)
  have hfrom : ∀ n ∈ a.diagram.nodes, a.diagram.Reaches Routine.start.id n.id := by
    intro n hn
    have hmem := hnodes n hn
    rw [visits_eq] at hchain hmem
    exact Diagram.reaches_of_isChain_cons hchain n.id hmem
  refine ⟨?_, ?_, hfrom, ?_, ?_⟩
  · rw [mem_nodes_iff_mem_visits h ha, visits_eq]
    simp
  · rw [mem_nodes_iff_mem_visits h ha, visits_eq]
    simp
  · intro n hn
    have hmem := hnodes n hn
    rw [visits_eq] at hchain hmem
    exact Diagram.reaches_of_isChain_concat hchain n.id hmem
  · have hle := Diagram.length_nodes_le_of_reaches (wellFormed_of_parts h ha).nodup_nodes hfrom
    omega

/-- In the diagram of an analysis through a loaded layout every node is reached from start and
reaches exit, and there is such a diagram for every trace that is not too long for exact sums. -/
theorem traversable_ofSamples (h : Layout.load first entries = .ok l) (name : String)
    (samples : List Int) :
    (∀ a, ofSamples name l samples = .ok a → a.diagram.Traversable) ∧
      (samples.length ≤ 2 ^ 26 - 2 → ∃ a, ofSamples name l samples = .ok a) := by
  constructor
  · intro a ha
    exact traversable_of_parts h (parts_of_ofSamples ha)
  · exact exists_ofSamples name l

/-- A routine that is left for two others and come back to from both. -/
theorem traversable_ofSamples_fork :
    ∃ l a, Layout.load 0 [⟨"a", 0, 9⟩, ⟨"b", 10, 9⟩, ⟨"c", 20, 9⟩] = .ok l ∧
      ofSamples "fork" l [3, 12, 99, 5, 21, 29, 0] = .ok a ∧ a.diagram.Traversable := by
  have hload : Layout.load 0 [⟨"a", 0, 9⟩, ⟨"b", 10, 9⟩, ⟨"c", 20, 9⟩] =
      .ok ⟨[⟨"0", "a", some 0, some 9⟩, ⟨"1", "b", some 10, some 19⟩,
        ⟨"2", "c", some 20, some 29⟩]⟩ := rfl
  have htraversable := traversable_ofSamples hload "fork" [3, 12, 99, 5, 21, 29, 0]
  obtain ⟨a, ha⟩ := htraversable.2 (by decide)
  exact ⟨_, a, hload, ha, htraversable.1 a ha⟩

end Analysis

end VisitGraph
