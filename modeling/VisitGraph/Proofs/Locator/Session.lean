import VisitGraph.Proofs.Itinerary.Outline

/-! # Sessions with a locator

A session mixes requests to one locator with searches that go to its layout. Every answer is the one
an unaided search gives, whatever was asked before. -/

namespace VisitGraph.Locator

/-- What can be asked in a session: of the locator, or of the layout without it. -/
inductive Request where
  | resolve (address : Int)
  | resolveAll (samples : List Int)
  | reduce (samples : List Int)
  | search (address : Int)
  | reduceAfresh (samples : List Int)
  deriving DecidableEq, Repr

/-- An answer: a routine if there is one, or routines. -/
inductive Answer where
  | routine (found : Option Routine)
  | routines (found : List Routine)
  deriving DecidableEq, Repr

namespace Request

/-- Answers a request. What goes to the layout leaves the locator alone. -/
def perform : Request → StateM Locator Answer
  | resolve address => return .routine (← Locator.resolve address)
  | resolveAll samples => return .routines (← Locator.resolveAll samples)
  | reduce samples => return .routines (← Itinerary.reduce samples)
  | search address => return .routine ((← get).layout.locate address)
  | reduceAfresh samples => return .routines (Itinerary.ofTrace (← get).layout samples)

/-- The answer without any memory. -/
def unaided (l : Layout) : Request → Answer
  | resolve address | search address => .routine (l.locate address)
  | resolveAll samples => .routines (l.hits samples)
  | reduce samples | reduceAfresh samples => .routines (Itinerary.ofHits (l.hits samples))

/-- The addresses that a request passes to the locator. -/
def asked : Request → List Int
  | resolve address => [address]
  | resolveAll samples | reduce samples => samples
  | search _ | reduceAfresh _ => []

/-- A request is answered as a search would answer it, and adds its addresses to those known. -/
theorem perform_of_knows {l : Layout} {past : List Int} {s : Locator} (h : Knows l past s)
    (q : Request) :
    ∃ s', q.perform.run s = (q.unaided l, s') ∧ Knows l (past ++ q.asked) s' := by
  cases q with
  | resolve address =>
      obtain ⟨s', hrun, h'⟩ := resolve_of_knows h address
      refine ⟨s', ?_, h'⟩
      rw [perform, run_bind_of_run hrun]
      rfl
  | resolveAll samples =>
      obtain ⟨s', hrun, h'⟩ := resolveAll_of_knows h samples
      refine ⟨s', ?_, h'⟩
      rw [perform, run_bind_of_run hrun]
      rfl
  | reduce samples =>
      obtain ⟨s', hrun, h'⟩ := reduce_of_knows h samples
      refine ⟨s', ?_, h'⟩
      rw [perform, run_bind_of_run hrun]
      rfl
  | search address =>
      refine ⟨s, ?_, by simpa [asked] using h⟩
      change (Answer.routine (s.layout.locate address), s) = _
      rw [h.layout]
      rfl
  | reduceAfresh samples =>
      refine ⟨s, ?_, by simpa [asked] using h⟩
      change (Answer.routines (Itinerary.ofTrace s.layout samples), s) = _
      rw [h.layout, Itinerary.ofTrace_eq_ofHits]
      rfl

end Request

/-- The answers of a session, each with the number of addresses known after it. -/
def session (s : Locator) : List Request → List (Answer × Nat)
  | [] => []
  | q :: rest =>
    let (answer, s') := q.perform.run s
    (answer, s'.knownCount) :: session s' rest

theorem session_of_knows {l : Layout} {past : List Int} {s : Locator} (h : Knows l past s)
    (requests : List Request) (i : ℕ) :
    (session s requests)[i]? = requests[i]?.map fun q =>
      (q.unaided l, (past ++ (requests.take (i + 1)).flatMap Request.asked).toFinset.card) := by
  induction requests generalizing past s i with
  | nil => rfl
  | cons q rest ih =>
      obtain ⟨s', hrun, h'⟩ := q.perform_of_knows h
      have hsession : session s (q :: rest) = (q.unaided l, s'.knownCount) :: session s' rest := by
        rw [session, hrun]
      rw [hsession]
      cases i with
      | zero =>
          have hcount : s'.knownCount = (past ++ q.asked).toFinset.card := h'.size
          simp [hcount]
      | succ i =>
          rw [List.getElem?_cons_succ, List.getElem?_cons_succ, ih h' i]
          simp

/-- However the requests are mixed, each is answered as without memory, and the locator always knows
as many addresses as it was asked for, each counted once. -/
theorem session_new (l : Layout) (requests : List Request) (i : ℕ) :
    (session (.new l) requests)[i]? = requests[i]?.map fun q =>
      (q.unaided l, ((requests.take (i + 1)).flatMap Request.asked).toFinset.card) :=
  session_of_knows (knows_new l) requests i

end VisitGraph.Locator
