import VisitGraph.Listing
import VisitGraph.Proofs.Outcome
import VisitGraph.Proofs.Text.Content
import VisitGraph.Proofs.Text.Cut

/-! # Reading a listing line by line

What a line stands for does not depend on its number, which only tells where a defect is. -/

namespace VisitGraph.Listing

open Text

/-- What the line stands for, cut into words and read as numbers. -/
def Reads (separator : String) (line : List Char) (e : Entry) : Prop :=
  ∃ start length, IsLongestCut separator.toList line e.name.toList start length ∧
    Hexadecimal.read? start = some e.start ∧ Hexadecimal.read? length = some e.length

/-- What is wrong with a numbered line: it cannot be cut, or the first of its numeric words that is
no number. -/
inductive LineDefect (separator : String) : ℕ × List Char → Fault → Prop where
  | shape {number line}
      (h : ∀ first second third, ¬ IsCut separator.toList line first second third) :
      LineDefect separator (number, line) (.malformedLine number separator (String.ofList line))
  | start {number line name start length}
      (hcut : IsLongestCut separator.toList line name start length)
      (h : Hexadecimal.read? start = none) :
      LineDefect separator (number, line) (.invalidField number .start (String.ofList start))
  | length {number line name start length} {n : Int}
      (hcut : IsLongestCut separator.toList line name start length)
      (hstart : Hexadecimal.read? start = some n) (h : Hexadecimal.read? length = none) :
      LineDefect separator (number, line) (.invalidField number .length (String.ofList length))

theorem readField_eq_ok {number : ℕ} {field : Field} {text : List Char} {n : Int} :
    readField number field text = .ok n ↔ Hexadecimal.read? text = some n := by
  rw [readField]
  cases Hexadecimal.read? text <;> simp

theorem readField_eq_error {number : ℕ} {field : Field} {text : List Char} {fault : Fault} :
    readField number field text = .error fault ↔
      Hexadecimal.read? text = none ∧ .invalidField number field (String.ofList text) = fault := by
  rw [readField]
  cases Hexadecimal.read? text <;> simp

theorem readLine_eq_ok {separator : String} {number : ℕ} {line : List Char} {e : Entry} :
    readLine separator number line = .ok e ↔ Reads separator line e := by
  rw [readLine]
  constructor
  · intro h
    split at h
    · cases h
    · rename_i name start length hfields
      simp only [bind_eq_ok, readField_eq_ok, pure_eq_ok] at h
      obtain ⟨n, hstart, m, hlength, rfl⟩ := h
      rw [fields?_eq_some_iff] at hfields
      exact ⟨start, length, by simpa using hfields, hstart, hlength⟩
  · rintro ⟨start, length, hcut, hstart, hlength⟩
    rw [fields?_eq_some_iff.mpr hcut]
    simp only [bind_eq_ok, readField_eq_ok, pure_eq_ok]
    exact ⟨e.start, hstart, e.length, hlength, by rw [String.ofList_toList]⟩

theorem readLine_eq_error {separator : String} {number : ℕ} {line : List Char} {fault : Fault} :
    readLine separator number line = .error fault ↔ LineDefect separator (number, line) fault := by
  rw [readLine]
  constructor
  · intro h
    split at h
    · rename_i hfields
      cases h
      exact .shape (fields?_eq_none_iff.mp hfields)
    · rename_i name start length hfields
      rw [fields?_eq_some_iff] at hfields
      simp only [bind_eq_error, readField_eq_ok, readField_eq_error, pure_ne_error, and_false,
        exists_false, or_false] at h
      rcases h with ⟨hnone, rfl⟩ | ⟨n, hstart, hnone, rfl⟩
      · exact .start hfields hnone
      · exact .length hfields hstart hnone
  · rintro (⟨hshape⟩ | ⟨hcut, hnone⟩ | ⟨hcut, hstart, hnone⟩)
    · rw [fields?_eq_none_iff.mpr hshape]
    · rw [fields?_eq_some_iff.mpr hcut]
      exact bind_eq_error.mpr (.inl (readField_eq_error.mpr ⟨hnone, rfl⟩))
    · rw [fields?_eq_some_iff.mpr hcut]
      exact bind_eq_error.mpr (.inr ⟨_, readField_eq_ok.mpr hstart,
        bind_eq_error.mpr (.inl (readField_eq_error.mpr ⟨hnone, rfl⟩))⟩)

/-- A line with nothing wrong stands for one entry. -/
theorem exists_lineDefect_iff {separator : String} {numbered : ℕ × List Char} :
    (∃ fault, LineDefect separator numbered fault) ↔ ¬ ∃ e, Reads separator numbered.2 e := by
  obtain ⟨number, line⟩ := numbered
  simp only [← @readLine_eq_ok separator number, ← readLine_eq_error]
  cases readLine separator number line <;> simp

theorem Reads.unique {separator : String} {line : List Char} {e e' : Entry}
    (h : Reads separator line e) (h' : Reads separator line e') : e = e' := by
  have h := (@readLine_eq_ok separator 0 line _).mpr h
  have h' := (@readLine_eq_ok separator 0 line _).mpr h'
  exact Except.ok.inj (h.symm.trans h')

theorem read_eq_ok {separator text : String} {entries : List Entry} :
    read separator text = .ok entries ↔
      separator ≠ "" ∧ List.Forall₂ (Reads separator) (contents text.toList) entries := by
  rw [read]
  by_cases h : separator = ""
  · simp [h]
  · rw [if_neg (by simpa using h), mapM_eq_ok, contents, List.forall₂_map_left_iff]
    simp only [readLine_eq_ok, h, ne_eq, not_false_eq_true, true_and]

theorem read_eq_error {separator text : String} {fault : Fault} :
    read separator text = .error fault ↔
      separator = "" ∧ .emptySeparator = fault ∨
        separator ≠ "" ∧ FirstDefect (LineDefect separator) (filledLines text.toList) fault := by
  rw [read]
  by_cases h : separator = ""
  · simp [h]
  · rw [if_neg (by simpa using h), mapM_eq_error]
    simp only [readLine_eq_error, h, ne_eq, not_false_eq_true, true_and, false_and, false_or]

end VisitGraph.Listing
