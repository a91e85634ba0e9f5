import VisitGraph.Proofs.Listing.Reading
import VisitGraph.Proofs.Text.Backtracking
import VisitGraph.Proofs.Text.Seam

/-! # The shape of a line

A line of a listing is refused for its shape exactly if it cannot be written as three words with the
separator between them. Otherwise its words are those of the longest cut, which are also the first
that backtracking comes to, and only its numbers can still be wrong. -/

namespace VisitGraph

namespace Text

theorem isBlank_getLast?_trim {text : List Char} {c : Char} (h : (trim text).getLast? = some c) :
    isBlank c = false := by
  rw [trim, List.getLast?_reverse] at h
  have hhead := List.head?_dropWhile_not isBlank (text.dropWhile isBlank).reverse
  rw [h] at hhead
  exact hhead

/-- A numbered line does not end in a blank. -/
theorem isBlank_getLast?_of_mem_filledLines {text : List Char} {numbered : ℕ × List Char}
    (h : numbered ∈ filledLines text) {c : Char} (hlast : numbered.2.getLast? = some c) :
    isBlank c = false := by
  rw [filledLines_eq, filledFrom, List.mem_filterMap] at h
  obtain ⟨⟨line, number⟩, -, hnumbered⟩ := h
  obtain ⟨content, hcontent, rfl⟩ := Option.map_eq_some_iff.mp hnumbered
  obtain ⟨-, rfl⟩ := content?_eq_some_iff.mp hcontent
  exact isBlank_getLast?_trim hlast

end Text

namespace Listing

open Text

/-- Reads the words of a line that has been cut. -/
def readWords (number : ℕ) (name start length : List Char) : Except Fault Entry := do
  let start ← readField number .start start
  let length ← readField number .length length
  return ⟨String.ofList name, start, length⟩

/-- The numbered line is refused for its shape exactly if it has no cut. If it has one, then the
longest is used, and it is what the first way through the pattern captures. -/
structure ReadAsCut (separator : String) (number : ℕ) (line : List Char) : Prop where
  refused_iff : readLine separator number line =
      .error (.malformedLine number separator (String.ofList line)) ↔
    ¬ ∃ first second third, IsCut separator.toList line first second third
  longest : (∃ first second third, IsCut separator.toList line first second third) →
    ∃ first second third, IsLongestCut separator.toList line first second third ∧
      firstWay? separator.toList line = some [first, second, third] ∧
      readLine separator number line = readWords number first second third

variable {separator : String}

theorem readLine_of_fields? {number : ℕ} {line first second third : List Char}
    (h : fields? separator.toList line = some (first, second, third)) :
    readLine separator number line = readWords number first second third := by
  rw [readLine, h, readWords]

/-- Words that have been cut are refused for their numbers only. -/
theorem readWords_ne_malformedLine {number : ℕ} {first second third : List Char} {line : String} :
    readWords number first second third ≠ .error (.malformedLine number separator line) := by
  intro h
  simp only [readWords, bind_eq_error, readField_eq_error, pure_ne_error, and_false, exists_false,
    or_false] at h
  rcases h with ⟨-, hfault⟩ | ⟨n, -, -, hfault⟩
  · cases hfault
  · cases hfault

theorem readAsCut (number : ℕ) {line : List Char} (h : line.getLast? ≠ some '\n') :
    ReadAsCut separator number line := by
  cases hfields : fields? separator.toList line with
  | none =>
      have hnone : ¬ ∃ first second third, IsCut separator.toList line first second third := by
        rintro ⟨first, second, third, hcut⟩
        exact fields?_eq_none_iff.mp hfields first second third hcut
      constructor
      · rw [readLine, hfields]
        exact ⟨fun _ => hnone, fun _ => rfl⟩
      · exact fun hcut => absurd hcut hnone
  | some words =>
      obtain ⟨first, second, third⟩ := words
      have hlongest := fields?_eq_some_iff.mp hfields
      have hread : readLine separator number line = readWords number first second third :=
        readLine_of_fields? hfields
      constructor
      · rw [hread]
        exact ⟨fun hrefused => absurd hrefused readWords_ne_malformedLine,
          fun hnone => absurd ⟨first, second, third, hlongest.toIsCut⟩ hnone⟩
      · intro _
        have hway : firstWay? separator.toList line = some [first, second, third] := by
          rw [firstWay?_eq _ h, hfields]
          rfl
        exact ⟨first, second, third, hlongest, hway, hread⟩

/-- A listing is read line by line, and each line is read as the longest of its cuts. -/
theorem read_longestCuts (h : separator ≠ "") (text : String) :
    read separator text = (filledLines text.toList).mapM
        (fun numbered => readLine separator numbered.1 numbered.2) ∧
      ∀ numbered ∈ filledLines text.toList, ReadAsCut separator numbered.1 numbered.2 := by
  refine ⟨if_neg (by simpa using h), ?_⟩
  intro numbered hnumbered
  apply readAsCut
  intro hfeed
  have hblank := isBlank_getLast?_of_mem_filledLines hnumbered hfeed
  cases hblank

/-- A separator that overlaps with itself, and words that are made of it. -/
theorem read_longestCuts_overlap :
    "aa" ≠ "" ∧ (1, "aaaaaaaaa".toList) ∈ filledLines "aaaaaaaaa\r\n".toList ∧
      ReadAsCut "aa" 1 "aaaaaaaaa".toList ∧
      read "aa" "aaaaaaaaa\r\n" = .ok [⟨"aaa", 10, 10⟩] := by
  have hne : "aa" ≠ "" := by decide
  have hmem : (1, "aaaaaaaaa".toList) ∈ filledLines "aaaaaaaaa\r\n".toList := by decide +kernel
  exact ⟨hne, hmem, (read_longestCuts hne "aaaaaaaaa\r\n").2 _ hmem, rfl⟩

/-- Blanks and other signs in a separator stand for themselves. -/
example : read " .*" "f .*1 .*2" = .ok [⟨"f", 1, 2⟩] := rfl

end Listing

end VisitGraph
