import VisitGraph.Proofs.Outcome
import VisitGraph.Proofs.Text.Content
import VisitGraph.Trace

/-! # Reading a trace line by line

Every line stands for an address, which is not negative. -/

namespace VisitGraph.Trace

open Text

/-- The address that the line stands for. -/
def Reads (line : List Char) (address : Int) : Prop :=
  Hexadecimal.read? line = some address ∧ 0 ≤ address

/-- What is wrong with a numbered line: it is no number, or a negative one. -/
inductive LineDefect : ℕ × List Char → Fault → Prop where
  | invalid {number line} (h : Hexadecimal.read? line = none) :
      LineDefect (number, line) (.invalidAddress number (String.ofList line))
  | negative {number line} {address : Int} (h : Hexadecimal.read? line = some address)
      (hsign : address < 0) :
      LineDefect (number, line) (.negativeAddress number (String.ofList line))

theorem readLine_eq_ok {number : ℕ} {line : List Char} {address : Int} :
    readLine number line = .ok address ↔ Reads line address := by
  rw [readLine, Reads]
  cases Hexadecimal.read? line with
  | none => simp
  | some n =>
      by_cases h : n < 0
      · simp only [if_pos h, reduceCtorEq, Option.some.injEq, false_iff]
        omega
      · simp only [if_neg h, Except.ok.injEq, Option.some.injEq]
        omega

theorem readLine_eq_error {number : ℕ} {line : List Char} {fault : Fault} :
    readLine number line = .error fault ↔ LineDefect (number, line) fault := by
  rw [readLine]
  constructor
  · intro h
    split at h
    · rename_i hread
      cases h
      exact .invalid hread
    · rename_i address hread
      split at h
      · rename_i hsign
        cases h
        exact .negative hread hsign
      · cases h
  · rintro (⟨hread⟩ | ⟨hread, hsign⟩)
    · rw [hread]
    · rw [hread]
      exact if_pos hsign

/-- A line with nothing wrong stands for an address. -/
theorem exists_lineDefect_iff {numbered : ℕ × List Char} :
    (∃ fault, LineDefect numbered fault) ↔ ¬ ∃ address, Reads numbered.2 address := by
  obtain ⟨number, line⟩ := numbered
  simp only [← @readLine_eq_ok number, ← readLine_eq_error]
  cases readLine number line <;> simp

theorem read_eq_ok {text : String} {samples : List Int} :
    read text = .ok samples ↔ List.Forall₂ Reads (contents text.toList) samples := by
  rw [read, mapM_eq_ok, contents, List.forall₂_map_left_iff]
  simp only [readLine_eq_ok]

theorem read_eq_error {text : String} {fault : Fault} :
    read text = .error fault ↔ FirstDefect LineDefect (filledLines text.toList) fault := by
  rw [read, mapM_eq_error]
  simp only [readLine_eq_error]

/-- A trace has no more samples than lines. -/
theorem length_le_of_read {text : String} {samples : List Int} (h : read text = .ok samples) :
    samples.length ≤ (lines text.toList).length := by
  have hfilled : (filledLines text.toList).length ≤ ((lines text.toList).zipIdx 1).length :=
    List.length_filterMap_le _ _
  rw [List.length_zipIdx] at hfilled
  rwa [← (read_eq_ok.mp h).length_eq, contents, List.length_map]

end VisitGraph.Trace
