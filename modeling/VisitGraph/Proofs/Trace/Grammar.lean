import VisitGraph.Proofs.Text.Seam
import VisitGraph.Proofs.Text.Spelling
import VisitGraph.Proofs.Trace.Reading

/-! # The grammar of traces

A trace is read if every line of it that is not blank is the spelling of a number that is not
negative, and only then. The zero of a base mark may come from any script, as may the digits. -/

namespace VisitGraph.Trace

open Text Text.Hexadecimal

/-- The reader takes the spellings whose base mark begins with one of the zeros. It takes every
layout of them, so numbers come back however they were written. -/
structure TakesSpellings (zero : Char → Prop) (read : String → Except Fault (List Int)) :
    Prop where
  succeeds_iff : ∀ text, Succeeds (read text) ↔
    ∀ line ∈ lines text.toList, trim line ≠ [] →
      ∃ address, Spells zero (trim line) address ∧ 0 ≤ address
  values : ∀ text samples, read text = .ok samples →
    List.Forall₂ (Spells zero) (((lines text.toList).map trim).filter (· ≠ [])) samples
  readBack : ∀ numbers rendered text, List.Forall₂ Renders numbers rendered →
    LaidOut rendered text.toList → read text = .ok (numbers.map Int.ofNat)

theorem reads_iff {line : List Char} {address : Int} :
    Reads line address ↔ Spells IsZero line address ∧ 0 ≤ address := by
  rw [Reads, read?_eq_some_iff]

theorem contents_eq_filter (text : List Char) :
    contents text = ((lines text).map trim).filter (· ≠ []) := by
  rw [contents_eq_filled]
  induction lines text with
  | nil => rfl
  | cons line ls ih =>
      rw [filled_cons, ih, List.map_cons, List.filter_cons, content?]
      cases trim line <;> rfl

theorem mem_contents {line text : List Char} :
    line ∈ contents text ↔ ∃ l ∈ lines text, trim l ≠ [] ∧ trim l = line := by
  rw [contents_eq_filled, filled, List.mem_filterMap]
  simp only [content?_eq_some_iff]

theorem succeeds_read_iff {text : String} :
    Succeeds (read text) ↔ ∀ line ∈ contents text.toList, ∃ address, Reads line address := by
  constructor
  · rintro ⟨samples, hread⟩ line hline
    obtain ⟨address, -, haddress⟩ := exists_rel_of_mem (read_eq_ok.mp hread) hline
    exact ⟨address, haddress⟩
  · intro h
    apply Succeeds.mapM
    rintro ⟨number, line⟩ hmem
    obtain ⟨address, haddress⟩ := h line (List.mem_map_of_mem hmem)
    exact ⟨address, readLine_eq_ok.mpr haddress⟩

theorem read_rendered {numbers : List ℕ} {rendered : List (List Char)} {text : String}
    (h : List.Forall₂ Renders numbers rendered) (htext : LaidOut rendered text.toList) :
    read text = .ok (numbers.map Int.ofNat) := by
  have hcontent : ∀ line ∈ rendered, IsContent line := by
    intro line hline
    obtain ⟨n, -, hn⟩ := exists_rel_of_mem h.flip hline
    exact (Renders.spells hn).isContent
  rw [read_eq_ok, htext.contents_eq hcontent, List.forall₂_map_right_iff]
  apply h.flip.imp
  intro line n hn
  exact reads_iff.mpr ⟨Renders.spells hn, Int.natCast_nonneg n⟩

/-- Traces are read by the grammar in which every zero of a base mark is as good as any other. -/
theorem read_takesSpellings : TakesSpellings IsZero read := by
  constructor
  · intro text
    simp only [succeeds_read_iff, mem_contents, reads_iff]
    constructor
    · intro h line hline hne
      exact h (trim line) ⟨line, hline, hne, rfl⟩
    · rintro h - ⟨line, hline, hne, rfl⟩
      exact h line hline hne
  · intro text samples hread
    rw [← contents_eq_filter]
    apply (read_eq_ok.mp hread).imp
    intro line address haddress
    exact (reads_iff.mp haddress).1
  · intro numbers rendered text h htext
    exact read_rendered h htext

/-- Numbers in several forms between several kinds of break. -/
theorem read_takesSpellings_forms :
    let numbers := [31, 0, 2748]
    let rendered := ["0X_1_F".toList, "00".toList, "aBc".toList]
    let text := " 0X_1_F\r\n\t\n00\u2028aBc\x1c"
    List.Forall₂ Renders numbers rendered ∧ LaidOut rendered text.toList ∧
      read text = .ok (numbers.map Int.ofNat) := by
  intro numbers rendered text
  have hrendered : List.Forall₂ Renders numbers rendered := by
    refine .cons ⟨['0', 'X', '_'], 0, ['1', 'F'], ['1', '_', 'F'], ?_, ?_, ?_, ?_⟩ <|
      .cons ⟨[], 1, ['0', '0'], ['0', '0'], .none, ?_, ?_, ?_⟩ <|
      .cons ⟨[], 0, ['a', 'B', 'c'], ['a', 'B', 'c'], .none, ?_, ?_, ?_⟩ .nil
    · exact .gap rfl (.inr rfl)
    · exact .gap .one
    · decide
    · decide
    · exact .next .one
    · decide
    · decide
    · exact .next (.next .one)
    · decide
    · decide
  have htext : LaidOut rendered text.toList := by
    have hpieces : text.toList = [' '] ++ ("0X_1_F".toList ++ ([] ++ '\r' ::
        (['\n', '\t', '\n'] ++ ("00".toList ++ ([] ++ '\u2028' ::
          ([] ++ ("aBc".toList ++ ['\x1c']))))))) := by
      decide +kernel
    rw [hpieces]
    have hblanks : ∀ {blanks : List Char}, blanks.all isBlank = true → AllBlank blanks :=
      List.all_eq_true.mp
    exact .line (hblanks (by decide)) (hblanks (by decide)) (by decide)
      (.line (hblanks (by decide)) (hblanks (by decide)) (by decide)
        (.last (hblanks (by decide)) (hblanks (by decide))))
  exact ⟨hrendered, htext, read_takesSpellings.readBack numbers rendered text hrendered htext⟩

/-- What stands before an `x` and is no sign begins a base mark. -/
theorem zero_of_spells_mark {zero : Char → Prop} {z : Char} {rest : List Char} {n : Int}
    (h : Spells zero (z :: 'x' :: rest) n) (hplus : z ≠ '+') (hminus : z ≠ '-') : zero z := by
  generalize hline : z :: 'x' :: rest = line at h
  cases h with
  | bare hmark hdigits =>
      cases hmark with
      | none =>
          rw [List.nil_append] at hline
          subst hline
          exact absurd (by simp) (hdigits.notMem (c := 'x') (by decide) (by decide))
      | tight hz =>
          obtain ⟨rfl, -⟩ := List.cons.inj hline
          exact hz
      | gap hz =>
          obtain ⟨rfl, -⟩ := List.cons.inj hline
          exact hz
  | plus => exact absurd (List.cons.inj hline).1 hplus
  | minus => exact absurd (List.cons.inj hline).1 hminus

/-- An Arabic zero begins a base mark, too, so the grammar that has only the zero of the basic
alphabet there is too narrow. -/
theorem read_arabic_mark :
    read "\u0660x1f" = .ok [31] ∧ ¬ TakesSpellings (· = '0') read := by
  have hread : read "\u0660x1f" = .ok [31] := rfl
  refine ⟨hread, ?_⟩
  intro h
  have hvalues := h.values _ _ hread
  have hlines : ((lines "\u0660x1f".toList).map trim).filter (· ≠ []) =
      [['\u0660', 'x', '1', 'f']] := by
    decide +kernel
  rw [hlines, List.forall₂_cons] at hvalues
  have hzero := zero_of_spells_mark hvalues.1 (by decide) (by decide)
  exact absurd hzero (by decide)

end VisitGraph.Trace
