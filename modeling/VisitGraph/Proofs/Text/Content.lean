import VisitGraph.Text.Lines

/-! # The contents of a text

The contents are the lines that hold more than blanks, trimmed. They can be read at each break
apart: a return before a line feed only makes an empty line more. So contents come back however
many blanks and breaks surround them. -/

namespace VisitGraph.Text

theorem isBlank_of_isBreak {c : Char} (h : isBreak c = true) : isBlank c = true := by
  simp only [isBreak, isBlank, Bool.or_eq_true, Bool.and_eq_true, decide_eq_true_eq,
    beq_iff_eq] at h ⊢
  omega

theorem isBreak_eq_false_of_isBlank {c : Char} (h : isBlank c = false) : isBreak c = false := by
  rw [Bool.eq_false_iff]
  intro hbreak
  rw [isBlank_of_isBreak hbreak] at h
  cases h

/-- No visible character of the first script is blank. -/
theorem isBlank_of_range {c : Char} (h : 33 ≤ c.toNat) (h' : c.toNat ≤ 126) :
    isBlank c = false := by
  rw [Bool.eq_false_iff]
  intro hblank
  simp only [isBlank, Bool.or_eq_true, Bool.and_eq_true, decide_eq_true_eq, beq_iff_eq] at hblank
  omega

/-- Nothing but blanks, breaks among them. -/
abbrev AllBlank (text : List Char) : Prop :=
  ∀ c ∈ text, isBlank c = true

/-! ## Trimming -/

theorem trim_cons_of_blank {c : Char} (h : isBlank c = true) (text : List Char) :
    trim (c :: text) = trim text := by
  simp [trim, h]

theorem trim_concat_of_blank {c : Char} (h : isBlank c = true) (text : List Char) :
    trim (text ++ [c]) = trim text := by
  rw [trim, trim, List.dropWhile_append]
  cases text.dropWhile isBlank with
  | nil => simp [h]
  | cons d rest => simp [h]

theorem trim_eq_self {text : List Char} (hhead : ∀ c ∈ text.head?, isBlank c = false)
    (hlast : ∀ c ∈ text.getLast?, isBlank c = false) : trim text = text := by
  have hdrop : ∀ {cs : List Char}, (∀ c ∈ cs.head?, isBlank c = false) →
      cs.dropWhile isBlank = cs := by
    intro cs hcs
    cases cs with
    | nil => rfl
    | cons c cs => rw [List.dropWhile_cons_of_neg (by simp [hcs c rfl])]
  rw [trim, hdrop hhead, hdrop (by simpa using hlast), List.reverse_reverse]

/-! ## Contents line by line -/

/-- The lines that hold more than blanks, trimmed. -/
def contents (text : List Char) : List (List Char) :=
  (filledLines text).map Prod.snd

/-- The line without the blanks around it, if that leaves anything. -/
def content? (line : List Char) : Option (List Char) :=
  if (trim line).isEmpty then none else some (trim line)

/-- What is left of lines when they are trimmed and the empty ones are dropped. -/
def filled (ls : List (List Char)) : List (List Char) :=
  ls.filterMap content?

theorem contents_eq_filled (text : List Char) : contents text = filled (lines text) := by
  have hcontent : ∀ line : List Char × Nat, Option.map Prod.snd
      (if (trim line.1).isEmpty then none else some (line.2, trim line.1)) = content? line.1 := by
    intro line
    rw [content?]
    split <;> rfl
  have hlines : ((lines text).zipIdx 1).map Prod.fst = lines text := by simp
  calc contents text = ((lines text).zipIdx 1).filterMap (content? ·.1) := by
        simp only [contents, filledLines, List.map_filterMap, hcontent]
    _ = filled (((lines text).zipIdx 1).map Prod.fst) := by rw [filled, List.filterMap_map]; rfl
    _ = filled (lines text) := by rw [hlines]

theorem filled_cons_nil (ls : List (List Char)) : filled ([] :: ls) = filled ls := rfl

theorem filled_cons (line : List Char) (ls : List (List Char)) :
    filled (line :: ls) = (content? line).toList ++ filled ls := by
  rw [filled, List.filterMap_cons]
  cases content? line <;> rfl

theorem filled_eq_headD_tail (ls : List (List Char)) :
    filled (ls.headD [] :: ls.tail) = filled ls := by
  cases ls <;> rfl

/-- The same first line, and further lines with the same contents. -/
def Alike (ls ms : List (List Char)) : Prop :=
  ls.headD [] = ms.headD [] ∧ filled ls.tail = filled ms.tail

theorem Alike.filled_eq {ls ms : List (List Char)} (h : Alike ls ms) : filled ls = filled ms := by
  rw [← filled_eq_headD_tail ls, ← filled_eq_headD_tail ms, h.1, filled_cons, filled_cons, h.2]

theorem Alike.cons_nil {ls ms : List (List Char)} (h : Alike ls ms) :
    Alike ([] :: ls) ([] :: ms) :=
  ⟨rfl, h.filled_eq⟩

theorem Alike.extendFirst {ls ms : List (List Char)} (h : Alike ls ms) (hms : ms ≠ [])
    (c : Char) : Alike (extendFirst c ls) (ms.modifyHead (c :: ·)) := by
  obtain ⟨m, ms, rfl⟩ := List.exists_cons_of_ne_nil hms
  obtain ⟨hhead, htail⟩ := h
  cases ls with
  | nil => exact ⟨congrArg (c :: ·) hhead, htail⟩
  | cons l ls => exact ⟨congrArg (c :: ·) hhead, htail⟩

theorem joinReturns_cons (c : Char) (text : List Char) :
    joinReturns (c :: text) =
      if c = '\r' ∧ text.head? = some '\n' then joinReturns text else c :: joinReturns text := by
  cases text with
  | nil => by_cases hc : c = '\r' <;> simp [joinReturns, hc]
  | cons d text =>
      rw [joinReturns, List.tail_cons, List.map_cons, List.cons_append, List.zip_cons_cons,
        List.filter_cons]
      by_cases hc : c = '\r' <;> by_cases hd : d = '\n' <;> simp [joinReturns, hc, hd]

/-- Joining a return with the line feed after it drops an empty line at most. -/
theorem alike_lines (text : List Char) : Alike (lines text) (text.splitOnP isBreak) := by
  induction text with
  | nil => exact ⟨rfl, rfl⟩
  | cons c text ih =>
      have hkeep : Alike ((c :: joinReturns text).foldr
          (fun c rest => if isBreak c then [] :: rest else Text.extendFirst c rest) [])
            ((c :: text).splitOnP isBreak) := by
        rw [List.splitOnP_cons_eq_if_modifyHead, List.foldr_cons]
        by_cases hc : isBreak c = true
        · rw [if_pos hc, if_pos hc]
          exact ih.cons_nil
        · rw [if_neg hc, if_neg hc]
          exact ih.extendFirst (List.splitOnP_ne_nil isBreak text) c
      rw [lines, joinReturns_cons]
      split
      · rename_i hpair
        obtain ⟨rfl, hfeed⟩ := hpair
        obtain ⟨text, rfl⟩ := List.head?_eq_some_iff.mp hfeed
        have hfirst : (lines ('\n' :: text)).headD [] = [] := by
          rw [lines, joinReturns_cons, if_neg (by simp)]
          rfl
        refine ⟨hfirst, ?_⟩
        rw [List.splitOnP_cons_eq_if_modifyHead, if_pos (by decide), List.tail_cons,
          ← filled_eq_headD_tail (List.splitOnP _ _), ← ih.1, hfirst, filled_cons_nil]
        exact ih.2
      · exact hkeep

theorem contents_eq (text : List Char) : contents text = filled (text.splitOnP isBreak) := by
  rw [contents_eq_filled, (alike_lines text).filled_eq]

/-- Contents are read apart on both sides of any break. -/
theorem contents_append_break {c : Char} (hc : isBreak c = true) (front rest : List Char) :
    contents (front ++ c :: rest) = contents front ++ contents rest := by
  simp only [contents_eq, List.splitOnP_append_cons front rest hc, filled, List.filterMap_append]

theorem contents_of_noBreak {text : List Char} (h : ∀ c ∈ text, isBreak c = false) :
    contents text = filled [text] := by
  rw [contents_eq, List.splitOnP_eq_singleton h]

/-! ## Blanks around contents -/

theorem contents_cons_of_blank {c : Char} (hc : isBlank c = true) (text : List Char) :
    contents (c :: text) = contents text := by
  by_cases hbreak : isBreak c = true
  · exact contents_append_break hbreak [] text
  · rw [contents_eq, contents_eq, List.splitOnP_cons_eq_if_modifyHead, if_neg hbreak]
    obtain ⟨line, ls, hls⟩ := List.exists_cons_of_ne_nil (List.splitOnP_ne_nil isBreak text)
    rw [hls, List.modifyHead_cons, filled_cons, filled_cons, content?, trim_cons_of_blank hc]
    rfl

theorem contents_append_of_allBlank {front text : List Char} (h : AllBlank front) :
    contents (front ++ text) = contents text := by
  induction front with
  | nil => rfl
  | cons c front ih =>
      obtain ⟨hc, hrest⟩ := List.forall_mem_cons.mp h
      rw [List.cons_append, contents_cons_of_blank hc, ih hrest]

theorem contents_of_allBlank {text : List Char} (h : AllBlank text) : contents text = [] := by
  rw [← List.append_nil text, contents_append_of_allBlank h]
  rfl

/-- Behind a line, too, blanks change nothing. -/
theorem contents_line_append {line back : List Char} (hline : ∀ c ∈ line, isBreak c = false)
    (hback : AllBlank back) : contents (line ++ back) = filled [line] := by
  induction back generalizing line with
  | nil => rw [List.append_nil, contents_of_noBreak hline]
  | cons c back ih =>
      obtain ⟨hc, hrest⟩ := List.forall_mem_cons.mp hback
      by_cases hbreak : isBreak c = true
      · rw [contents_append_break hbreak, contents_of_allBlank hrest, List.append_nil,
          contents_of_noBreak hline]
      · have hlonger : ∀ d ∈ line ++ [c], isBreak d = false := by
          intro d hd
          rcases List.mem_append.mp hd with hd | hd
          · exact hline d hd
          · rw [List.mem_singleton.mp hd, Bool.eq_false_iff.mpr hbreak]
        rw [List.append_cons, ih hlonger hrest, filled_cons, content?, trim_concat_of_blank hc,
          filled_cons, content?]

/-! ## Lines that are laid out -/

/-- A line that is its own content. -/
structure IsContent (line : List Char) : Prop where
  ne_nil : line ≠ []
  noBreak : ∀ c ∈ line, isBreak c = false
  head : ∀ c ∈ line.head?, isBlank c = false
  last : ∀ c ∈ line.getLast?, isBlank c = false

theorem IsContent.filled_singleton {line : List Char} (h : IsContent line) :
    filled [line] = [line] := by
  have htrim : trim line = line := trim_eq_self h.head h.last
  rw [filled_cons, content?, htrim, if_neg (by simp [h.ne_nil])]
  rfl

/-- The lines stand in the text in order, with at least one break between two of them and with any
further blanks and breaks around them. -/
inductive LaidOut : List (List Char) → List Char → Prop where
  | none {blanks} (h : AllBlank blanks) : LaidOut [] blanks
  | last {front line back} (hfront : AllBlank front) (hback : AllBlank back) :
      LaidOut [line] (front ++ (line ++ back))
  | line {front line back c ls rest} (hfront : AllBlank front) (hback : AllBlank back)
      (hc : isBreak c = true) :
      LaidOut ls rest → LaidOut (line :: ls) (front ++ (line ++ (back ++ c :: rest)))

theorem LaidOut.contents_eq {ls : List (List Char)} {text : List Char} (h : LaidOut ls text)
    (hls : ∀ line ∈ ls, IsContent line) : contents text = ls := by
  induction h with
  | none hblanks => exact contents_of_allBlank hblanks
  | last hfront hback =>
      have hline := hls _ List.mem_cons_self
      rw [contents_append_of_allBlank hfront, contents_line_append hline.noBreak hback,
        hline.filled_singleton]
  | line hfront hback hc _ ih =>
      obtain ⟨hline, hrest⟩ := List.forall_mem_cons.mp hls
      rw [contents_append_of_allBlank hfront, ← List.append_assoc, contents_append_break hc,
        contents_line_append hline.noBreak hback, hline.filled_singleton, ih hrest]
      rfl

end VisitGraph.Text
