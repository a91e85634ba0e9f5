import Mathlib.Data.List.Basic
import VisitGraph.Proofs.Text.Content

/-! # Lines on both sides of a line feed

A line feed always ends a line, and nothing after it can belong to that line. So the lines of a text
are those up to the line feed and those behind it, whatever stands before the line feed; a return
there is taken in by it. -/

namespace VisitGraph.Text

@[simp] theorem lines_nil : lines [] = [] := rfl

theorem lines_cons (c : Char) (text : List Char) :
    lines (c :: text) =
      if c = '\r' ∧ text.head? = some '\n' then lines text
      else if isBreak c then [] :: lines text
      else extendFirst c (lines text) := by
  rw [lines, joinReturns_cons]
  split
  · rfl
  · rfl

theorem extendFirst_ne_nil (c : Char) (ls : List (List Char)) : extendFirst c ls ≠ [] := by
  cases ls <;> simp [extendFirst]

theorem extendFirst_append (c : Char) {ls : List (List Char)} (h : ls ≠ [])
    (ms : List (List Char)) : extendFirst c (ls ++ ms) = extendFirst c ls ++ ms := by
  cases ls with
  | nil => exact absurd rfl h
  | cons line ls => rfl

theorem lines_ne_nil {text : List Char} (h : text ≠ []) : lines text ≠ [] := by
  induction text with
  | nil => exact absurd rfl h
  | cons c text ih =>
      rw [lines_cons]
      split
      · rename_i hpair
        apply ih
        rintro rfl
        simp at hpair
      · split
        · simp
        · exact extendFirst_ne_nil c _

theorem lines_append_feed (front rest : List Char) :
    lines (front ++ '\n' :: rest) = lines (front ++ ['\n']) ++ lines rest := by
  induction front with
  | nil =>
      rw [List.nil_append, lines_cons, if_neg (by simp), if_pos (by decide)]
      rfl
  | cons c front ih =>
      have hhead : (front ++ '\n' :: rest).head? = (front ++ ['\n']).head? := by
        cases front <;> rfl
      rw [List.cons_append, List.cons_append, lines_cons, lines_cons, hhead, ih]
      split
      · rfl
      · split
        · rfl
        · exact extendFirst_append c (lines_ne_nil (by simp)) _

/-- A line feed at the end adds an empty line at most. -/
theorem lines_concat_feed (front : List Char) :
    lines (front ++ ['\n']) = lines front ∨ lines (front ++ ['\n']) = lines front ++ [[]] := by
  induction front with
  | nil => exact .inr rfl
  | cons c front ih =>
      cases front with
      | nil =>
          have hfeed : lines ['\n'] = [[]] := rfl
          rw [List.singleton_append, lines_cons, hfeed, lines_cons, lines_nil]
          -- a return ends the same line with the feed as alone; behind any other break the feed
          -- makes an empty line more
          by_cases hc : c = '\r'
          · simp [hc, isBreak]
          · by_cases hbreak : isBreak c = true <;> simp [hc, hbreak, extendFirst]
      | cons d front =>
          have hhead : (d :: front ++ ['\n']).head? = (d :: front).head? := rfl
          rw [List.cons_append, lines_cons, lines_cons c (d :: front), hhead]
          rcases ih with ih | ih
          · exact .inl (by rw [ih])
          · right
            rw [ih, extendFirst_append c (lines_ne_nil (List.cons_ne_nil d front))]
            split
            · rfl
            · split <;> rfl

/-! ## Numbered lines -/

/-- The lines that hold more than blanks, trimmed, with numbers counted over all lines from the
given one. -/
def filledFrom (first : ℕ) (ls : List (List Char)) : List (ℕ × List Char) :=
  (ls.zipIdx first).filterMap fun (line, number) => (content? line).map (number, ·)

theorem filledLines_eq (text : List Char) : filledLines text = filledFrom 1 (lines text) := by
  apply List.filterMap_congr
  rintro ⟨line, number⟩ -
  simp only [content?]
  split <;> rfl

theorem filledFrom_cons_none {line : List Char} (h : content? line = none) (first : ℕ)
    (ls : List (List Char)) : filledFrom first (line :: ls) = filledFrom (first + 1) ls := by
  simp [filledFrom, List.zipIdx_cons, h]

theorem filledFrom_cons_some {line content : List Char} (h : content? line = some content)
    (first : ℕ) (ls : List (List Char)) :
    filledFrom first (line :: ls) = (first, content) :: filledFrom (first + 1) ls := by
  simp [filledFrom, List.zipIdx_cons, h]

theorem filledFrom_append (first : ℕ) (ls ms : List (List Char)) :
    filledFrom first (ls ++ ms) = filledFrom first ls ++ filledFrom (first + ls.length) ms := by
  rw [filledFrom, List.zipIdx_append, List.filterMap_append]
  rfl

theorem filledFrom_add (first n : ℕ) (ls : List (List Char)) :
    filledFrom (first + n) ls = (filledFrom first ls).map (Prod.map (· + n) id) := by
  induction ls generalizing first with
  | nil => rfl
  | cons line ls ih =>
      have hrest := ih (first + 1)
      rw [Nat.add_right_comm] at hrest
      cases h : content? line with
      | none => rw [filledFrom_cons_none h, filledFrom_cons_none h, hrest]
      | some content =>
          rw [filledFrom_cons_some h, filledFrom_cons_some h, hrest, List.map_cons]
          rfl

theorem content?_eq_some_iff {line content : List Char} :
    content? line = some content ↔ trim line ≠ [] ∧ trim line = content := by
  rw [content?]
  split <;> simp_all

theorem exists_mem_filledFrom {line content : List Char} {ls : List (List Char)} (first : ℕ)
    (hline : line ∈ ls) (hcontent : content? line = some content) :
    ∃ number, (number, content) ∈ filledFrom first ls := by
  obtain ⟨front, rest, rfl⟩ := List.append_of_mem hline
  rw [filledFrom_append, filledFrom_cons_some hcontent]
  exact ⟨first + front.length, by simp⟩

/-- A line feed behind a text adds no content, and what follows it is numbered from there on. -/
theorem filledLines_append_feed (front rest : List Char) :
    filledLines (front ++ '\n' :: rest) =
      filledLines front ++
        (filledLines rest).map (Prod.map (· + (lines (front ++ ['\n'])).length) id) := by
  have hfront : filledFrom 1 (lines (front ++ ['\n'])) = filledFrom 1 (lines front) := by
    rcases lines_concat_feed front with hlines | hlines
    · rw [hlines]
    · rw [hlines, filledFrom_append]
      exact List.append_nil _
  rw [filledLines_eq, filledLines_eq, filledLines_eq, lines_append_feed, filledFrom_append, hfront,
    filledFrom_add]

/-- What precedes a numbered line in the contents precedes it in the text, all lines counted. -/
theorem filledFrom_eq_append_cons {first number : ℕ} {ls : List (List Char)}
    {before after : List (ℕ × List Char)} {content : List Char}
    (h : filledFrom first ls = before ++ (number, content) :: after) :
    ∃ front line rest, ls = front ++ line :: rest ∧ number = first + front.length ∧
      content? line = some content ∧ before = filledFrom first front := by
  induction ls generalizing first before with
  | nil => simp [filledFrom] at h
  | cons line ls ih =>
      cases hline : content? line with
      | none =>
          rw [filledFrom_cons_none hline] at h
          obtain ⟨front, line', rest, rfl, hnumber, hcontent, hbefore⟩ := ih h
          refine ⟨line :: front, line', rest, rfl, ?_, hcontent, ?_⟩
          · rw [hnumber, List.length_cons]
            omega
          · rw [hbefore, filledFrom_cons_none hline]
      | some content' =>
          rw [filledFrom_cons_some hline] at h
          cases before with
          | nil =>
              obtain ⟨hpair, -⟩ := List.cons.inj h
              obtain ⟨rfl, rfl⟩ := Prod.mk.inj hpair
              exact ⟨[], line, ls, rfl, rfl, hline, rfl⟩
          | cons numbered before =>
              obtain ⟨rfl, hrest⟩ := List.cons.inj h
              obtain ⟨front, line', rest, rfl, hnumber, hcontent, hbefore⟩ := ih hrest
              refine ⟨line :: front, line', rest, rfl, ?_, hcontent, ?_⟩
              · rw [hnumber, List.length_cons]
                omega
              · rw [hbefore, filledFrom_cons_some hline]

end VisitGraph.Text
