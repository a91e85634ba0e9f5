import VisitGraph.Printout
import VisitGraph.Proofs.Numeric.Written
import VisitGraph.Proofs.Text.Seam

/-! # Lines and words of a printout

A printout is cut into lines at its breaks, and a line into words at its spaces. Lines without
breaks and words without spaces come back from the cut as they were put together. -/

namespace VisitGraph.Text

/-- The lines of a text. -/
def linesOf (text : String) : List String :=
  (lines text.toList).map String.ofList

/-- The words of a line, also the empty ones between two spaces. -/
def wordsOf (line : String) : List String :=
  (line.toList.splitOn ' ').map String.ofList

/-- No character ends a line. -/
def Unbroken (line : String) : Prop :=
  ∀ c ∈ line.toList, isBreak c = false

/-- No character is blank. -/
def Solid (word : String) : Prop :=
  ∀ c ∈ word.toList, isBlank c = false

instance : DecidablePred Unbroken := fun line =>
  List.decidableBAll (fun c => isBreak c = false) line.toList

instance : DecidablePred Solid := fun word =>
  List.decidableBAll (fun c => isBlank c = false) word.toList

theorem Unbroken.append {front rest : String} (hfront : Unbroken front) (hrest : Unbroken rest) :
    Unbroken (front ++ rest) := by
  rw [Unbroken, String.toList_append]
  exact List.forall_mem_append.mpr ⟨hfront, hrest⟩

namespace Solid

theorem append {front rest : String} (hfront : Solid front) (hrest : Solid rest) :
    Solid (front ++ rest) := by
  rw [Solid, String.toList_append]
  exact List.forall_mem_append.mpr ⟨hfront, hrest⟩

theorem unbroken {word : String} (h : Solid word) : Unbroken word :=
  fun c hc => isBreak_eq_false_of_isBlank (h c hc)

theorem notMem_space {word : String} (h : Solid word) : ' ' ∉ word.toList := by
  intro hmem
  exact absurd (h ' ' hmem) (by decide)

end Solid

theorem isBlank_eq_false_of_isPlain {c : Char} (h : isPlain c = true) : isBlank c = false := by
  delta isPlain Char.isAlphanum Char.isAlpha Char.isUpper Char.isLower Char.isDigit at h
  simp only [Bool.or_eq_true, Bool.and_eq_true, decide_eq_true_eq, beq_iff_eq, ge_iff_le,
    UInt32.le_iff_toNat_le] at h
  change ((((65 ≤ c.toNat ∧ c.toNat ≤ 90 ∨ 97 ≤ c.toNat ∧ c.toNat ≤ 122) ∨
    48 ≤ c.toNat ∧ c.toNat ≤ 57) ∨ c = '-') ∨ c = '+') ∨ c = '.' at h
  rcases h with ((h | rfl) | rfl) | rfl
  · exact isBlank_of_range (by omega) (by omega)
  · decide
  · decide
  · decide

theorem solid_of_plain {word : String} (h : Plain word.toList) : Solid word :=
  fun c hc => isBlank_eq_false_of_isPlain (h c hc)

/-! ## Lines -/

/-- A line without breaks in front of a line feed is the first line. -/
theorem lines_append_cons_feed {line : List Char} (h : ∀ c ∈ line, isBreak c = false)
    (rest : List Char) : lines (line ++ '\n' :: rest) = line :: lines rest := by
  induction line with
  | nil =>
      rw [List.nil_append, lines_cons, if_neg (by simp), if_pos (by decide)]
  | cons c line ih =>
      obtain ⟨hc, hline⟩ := List.forall_mem_cons.mp h
      have hreturn : c ≠ '\r' := by
        rintro rfl
        exact absurd hc (by decide)
      rw [List.cons_append, lines_cons, if_neg fun hpair => hreturn hpair.1,
        if_neg (by simp [hc]), ih hline]
      rfl

theorem toList_ofLines_cons (line : String) (ls : List String) :
    (Printout.ofLines (line :: ls)).toList =
      line.toList ++ '\n' :: (Printout.ofLines ls).toList := by
  simp [Printout.ofLines, String.join_cons]

theorem linesOf_ofLines {ls : List String} (h : ∀ line ∈ ls, Unbroken line) :
    linesOf (Printout.ofLines ls) = ls := by
  induction ls with
  | nil => rfl
  | cons line ls ih =>
      obtain ⟨hline, hls⟩ := List.forall_mem_cons.mp h
      rw [linesOf, toList_ofLines_cons, lines_append_cons_feed hline, List.map_cons,
        String.ofList_toList]
      exact congrArg (line :: ·) (ih hls)

/-! ## Words -/

theorem wordsOf_intercalate {ws : List String} (h : ∀ w ∈ ws, Solid w) (hne : ws ≠ []) :
    wordsOf (" ".intercalate ws) = ws := by
  have hlist : ∀ w ∈ ws.map String.toList, ' ' ∉ w :=
    List.forall_mem_map.mpr fun w hw => (h w hw).notMem_space
  have hspace : " ".toList = [' '] := rfl
  rw [wordsOf, String.toList_intercalate, hspace,
    List.splitOn_intercalate ' ' hlist (by simpa using hne), List.map_map]
  simp [Function.comp_def]

/-- A line is its words with a space between each two. -/
theorem intercalate_wordsOf (line : String) : " ".intercalate (wordsOf line) = line := by
  apply String.toList_injective
  have hspace : " ".toList = [' '] := rfl
  rw [wordsOf, String.toList_intercalate, hspace, List.map_map]
  simp only [Function.comp_def, String.toList_ofList, List.map_id']
  exact List.intercalate_splitOn ' '

theorem wordsOf_ne_nil (line : String) : wordsOf line ≠ [] := by
  simp [wordsOf, List.splitOn_ne_nil]

theorem unbroken_intercalate {ws : List String} (h : ∀ w ∈ ws, Solid w) :
    Unbroken (" ".intercalate ws) := by
  induction ws with
  | nil => decide
  | cons w ws ih =>
      obtain ⟨hw, hws⟩ := List.forall_mem_cons.mp h
      cases ws with
      | nil => simpa using hw.unbroken
      | cons w' ws =>
          rw [String.intercalate_cons_cons]
          exact (hw.unbroken.append (by decide)).append (ih hws)

/-! ## Between fixed ends -/

/-- What stands between the two ends of a word. -/
def between? (front back word : String) : Option String :=
  ((front.toList.isPrefixOf? word.toList).bind back.toList.isSuffixOf?).map String.ofList

theorem between?_eq_some_iff {front back word inner : String} :
    between? front back word = some inner ↔ front ++ inner ++ back = word := by
  simp only [between?, Option.map_eq_some_iff, Option.bind_eq_some_iff,
    List.isPrefixOf?_eq_some_iff_append_eq, List.isSuffixOf?_eq_some_iff_append_eq]
  rw [← String.toList_inj, String.toList_append, String.toList_append]
  constructor
  · rintro ⟨chars, ⟨rest, hfront, hback⟩, rfl⟩
    rw [← hfront, ← hback, String.toList_ofList, List.append_assoc]
  · intro h
    refine ⟨inner.toList, ⟨_, ?_, rfl⟩, String.ofList_toList⟩
    rw [← h, List.append_assoc]

theorem between?_append (front back inner : String) :
    between? front back (front ++ inner ++ back) = some inner :=
  between?_eq_some_iff.mpr rfl

theorem between?_front (front inner : String) :
    between? front "" (front ++ inner) = some inner := by
  simp [between?_eq_some_iff]

theorem between?_back (back inner : String) : between? "" back (inner ++ back) = some inner := by
  simp [between?_eq_some_iff]

end VisitGraph.Text
