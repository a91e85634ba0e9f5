import VisitGraph.Proofs.Text.Content
import VisitGraph.Proofs.Text.Cut

/-! # Cuts by backtracking

A line is cut with a pattern: a word as long as possible, the separator, a second such word, the
separator again, and a third word up to the end. Backtracking takes a piece of the pattern after the
other and gives a word back character by character where the rest of the pattern finds no place. The
first way through the pattern gives the same words as the search for the longest cut. -/

namespace VisitGraph.Text

/-- A piece of a pattern. -/
inductive Piece where
  /-- One or more characters that are not blank, as many as possible. They are captured. -/
  | word
  /-- The given characters. -/
  | literal (chars : List Char)
  /-- The end of the text, or the line feed at its end. -/
  | finish

/-- The ways to take a word from the beginning of a text, with the rest. The longest comes first. -/
def wordSplits : List Char → List (List Char × List Char)
  | [] => []
  | c :: text =>
    if isBlank c then []
    else (wordSplits text).map (fun (word, rest) => (c :: word, rest)) ++ [([c], text)]

/-- The words captured on each way through a pattern, in the order in which backtracking comes to
them. -/
def ways : List Piece → List Char → List (List (List Char))
  | [], _ => [[]]
  | .word :: pieces, text =>
    (wordSplits text).flatMap fun split => (ways pieces split.2).map (split.1 :: ·)
  | .literal chars :: pieces, text => (chars.isPrefixOf? text).toList.flatMap (ways pieces)
  | .finish :: pieces, text => if text = [] ∨ text = ['\n'] then ways pieces text else []

/-- The pattern of a line. -/
def linePattern (separator : List Char) : List Piece :=
  [.word, .literal separator, .word, .literal separator, .word, .finish]

/-- The words captured on the first way through the pattern of a line. -/
def firstWay? (separator line : List Char) : Option (List (List Char)) :=
  (ways (linePattern separator) line).head?

/-! ## A word and what follows it -/

/-- The ways through a word and further pieces, from a text that goes on with the word. -/
theorem ways_word_cons {c : Char} (hc : isBlank c = false) (pieces : List Piece)
    (text : List Char) :
    ways (.word :: pieces) (c :: text) =
      (ways (.word :: pieces) text).map (List.modifyHead (c :: ·)) ++
        (ways pieces text).map ([c] :: ·) := by
  rw [ways, wordSplits, hc, if_neg Bool.false_ne_true, List.flatMap_append, List.flatMap_map, ways,
    List.map_flatMap, List.flatMap_singleton]
  simp only [List.map_map]
  rfl

theorem ways_word_of_blank {c : Char} (hc : isBlank c = true) (pieces : List Piece)
    (text : List Char) : ways (.word :: pieces) (c :: text) = [] := by
  rw [ways, wordSplits, if_pos hc, List.flatMap_nil]

/-- A word and the separator behind it are what a cut takes off. -/
theorem ways_word_literal (separator : List Char) (pieces : List Piece) (text : List Char) :
    ways (.word :: .literal separator :: pieces) text =
      (cuts separator text).flatMap fun cut => (ways pieces cut.2).map (cut.1 :: ·) := by
  induction text with
  | nil => rfl
  | cons c text ih =>
      cases hc : isBlank c with
      | true => rw [ways_word_of_blank hc, cuts_cons_of_blank hc, List.flatMap_nil]
      | false =>
          rw [ways_word_cons hc, ih, cuts, hc, if_neg Bool.false_ne_true, List.flatMap_append,
            List.flatMap_map, List.map_flatMap, ways]
          simp only [List.map_map]
          congr 1
          cases separator.isPrefixOf? text <;> simp

/-- A word up to the end is the whole text, if no line feed is at its end. -/
theorem ways_word_finish {text : List Char} (h : text.getLast? ≠ some '\n') :
    ways [.word, .finish] text = if isField text then [[text]] else [] := by
  induction text with
  | nil => rfl
  | cons c text ih =>
      cases hc : isBlank c with
      | true => simp [ways_word_of_blank hc, isField, hc]
      | false =>
          cases text with
          | nil => simp [ways, wordSplits, isField, hc]
          | cons d text =>
              rw [List.getLast?_cons_cons] at h
              have hend : ways [.finish] (d :: text) = [] := by
                have hfeed : d :: text ≠ ['\n'] := fun heq => h (by rw [heq]; rfl)
                simp [ways, hfeed]
              have hfield : isField (c :: d :: text) = isField (d :: text) := by
                simp [isField, hc]
              rw [ways_word_cons hc, ih h, hend, hfield]
              cases isField (d :: text) <;> rfl

/-- A text ends as the rest behind a cut does. -/
theorem getLast?_of_mem_cuts {separator text : List Char} {cut : List Char × List Char} {c : Char}
    (h : cut ∈ cuts separator text) (hlast : cut.2.getLast? = some c) :
    text.getLast? = some c := by
  obtain ⟨-, rfl⟩ := mem_cuts.mp h
  rw [List.getLast?_append, List.getLast?_append, hlast, Option.some_or, Option.some_or]

/-! ## The first way -/

theorem ways_linePattern (separator : List Char) {line : List Char}
    (h : line.getLast? ≠ some '\n') :
    ways (linePattern separator) line =
      (cuts separator line).flatMap fun cut => (cuts separator cut.2).flatMap fun cut' =>
        if isField cut'.2 then [[cut.1, cut'.1, cut'.2]] else [] := by
  rw [linePattern, ways_word_literal]
  refine List.flatMap_congr fun cut hcut => ?_
  rw [ways_word_literal, List.map_flatMap]
  refine List.flatMap_congr fun cut' hcut' => ?_
  have hlast : cut'.2.getLast? ≠ some '\n' := fun hfeed =>
    h (getLast?_of_mem_cuts hcut (getLast?_of_mem_cuts hcut' hfeed))
  rw [ways_word_finish hlast]
  cases isField cut'.2 <;> rfl

theorem firstWay?_eq (separator : List Char) {line : List Char} (h : line.getLast? ≠ some '\n') :
    firstWay? separator line =
      (fields? separator line).map fun words => [words.1, words.2.1, words.2.2] := by
  rw [firstWay?, ways_linePattern separator h, List.head?_flatMap, fields?, List.map_findSome?]
  congr 1
  funext cut
  rw [List.head?_flatMap, Function.comp_apply, Option.map_map, List.find?_eq_findSome?_guard,
    List.map_findSome?]
  congr 1
  funext cut'
  rw [Function.comp_apply, Option.guard]
  cases h : isField cut'.2 <;> simp [h]

end VisitGraph.Text
