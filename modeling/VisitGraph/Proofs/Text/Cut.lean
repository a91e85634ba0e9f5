import Mathlib.Data.List.Basic
import VisitGraph.Text.Fields

/-! # Cutting a line at a separator

The separator may stand inside a field and may overlap with itself, so a line can have many cuts.
The one in use has the longest first field and, among those, the longest second one. A separator
that shares no character with the last two fields leaves no choice but the cut that was written. -/

namespace VisitGraph.Text

/-- Not empty, and without blanks. -/
def IsWord (text : List Char) : Prop :=
  text ≠ [] ∧ ∀ c ∈ text, isBlank c = false

/-- Three words that give the line when the separator is put between them. -/
structure IsCut (separator line first second third : List Char) : Prop where
  line_eq : line = first ++ (separator ++ (second ++ (separator ++ third)))
  first_isWord : IsWord first
  second_isWord : IsWord second
  third_isWord : IsWord third

/-- The cut with the longest first word and, among those, the longest second one. -/
structure IsLongestCut (separator line first second third : List Char) : Prop extends
    IsCut separator line first second third where
  longest : ∀ first' second' third', IsCut separator line first' second' third' →
    first'.length < first.length ∨ first' = first ∧ second'.length ≤ second.length

theorem isField_eq_true_iff {text : List Char} : isField text = true ↔ IsWord text := by
  simp [isField, IsWord]

theorem isWord_cons {c : Char} {text : List Char} (h : IsWord (c :: text)) (hne : text ≠ []) :
    IsWord text :=
  ⟨hne, fun d hd => h.2 d (List.mem_cons_of_mem c hd)⟩

/-! ## All cuts at one separator -/

theorem cuts_cons_of_blank {c : Char} (hc : isBlank c = true) (separator text : List Char) :
    cuts separator (c :: text) = [] := by
  rw [cuts, if_pos hc]

/-- A field is the next character alone, with the separator behind it, or goes on from it. -/
theorem mem_cuts_cons {separator text field rest : List Char} {c : Char}
    (hc : isBlank c = false) :
    (field, rest) ∈ cuts separator (c :: text) ↔ ∃ more, field = c :: more ∧
      ((more, rest) ∈ cuts separator text ∨ more = [] ∧ separator ++ rest = text) := by
  rw [cuts, hc, if_neg Bool.false_ne_true, List.mem_append, List.mem_map, Option.mem_toList,
    Option.map_eq_some_iff]
  simp only [List.isPrefixOf?_eq_some_iff_append_eq]
  constructor
  · rintro (⟨⟨more, rest'⟩, hmem, hpair⟩ | ⟨rest', hprefix, hpair⟩)
    · obtain ⟨rfl, rfl⟩ := Prod.mk.inj hpair
      exact ⟨more, rfl, .inl hmem⟩
    · obtain ⟨rfl, rfl⟩ := Prod.mk.inj hpair
      exact ⟨[], rfl, .inr ⟨rfl, hprefix⟩⟩
  · rintro ⟨more, rfl, hmem | ⟨rfl, hprefix⟩⟩
    · exact .inl ⟨(more, rest), hmem, rfl⟩
    · exact .inr ⟨rest, hprefix, rfl⟩

theorem mem_cuts {separator text field rest : List Char} :
    (field, rest) ∈ cuts separator text ↔ IsWord field ∧ text = field ++ (separator ++ rest) := by
  induction text generalizing field with
  | nil =>
      simp only [cuts, List.not_mem_nil, false_iff, not_and]
      intro hword h
      exact hword.1 (List.append_eq_nil_iff.mp h.symm).1
  | cons c text ih =>
      cases hc : isBlank c with
      | true =>
          simp only [cuts_cons_of_blank hc, List.not_mem_nil, false_iff, not_and]
          intro hword h
          obtain ⟨d, field, rfl⟩ := List.exists_cons_of_ne_nil hword.1
          obtain ⟨rfl, -⟩ := List.cons.inj h
          simp [hword.2 c List.mem_cons_self] at hc
      | false =>
          rw [mem_cuts_cons hc]
          constructor
          · rintro ⟨more, rfl, hmem | ⟨rfl, hprefix⟩⟩
            · obtain ⟨hword, htext⟩ := ih.mp hmem
              refine ⟨⟨List.cons_ne_nil c more, ?_⟩, by rw [htext, List.cons_append]⟩
              simpa [hc] using hword.2
            · exact ⟨⟨List.cons_ne_nil c [], by simpa using hc⟩, by rw [← hprefix]; rfl⟩
          · rintro ⟨hword, h⟩
            obtain ⟨d, more, rfl⟩ := List.exists_cons_of_ne_nil hword.1
            obtain ⟨rfl, htext⟩ := List.cons.inj h
            refine ⟨more, rfl, ?_⟩
            cases more with
            | nil => exact .inr ⟨rfl, htext.symm⟩
            | cons e more => exact .inl (ih.mpr ⟨isWord_cons hword (by simp), htext⟩)

/-- The longer fields come first. -/
theorem pairwise_cuts (separator text : List Char) :
    (cuts separator text).Pairwise fun p q => q.1.length < p.1.length := by
  induction text with
  | nil => exact .nil
  | cons c text ih =>
      rw [cuts]
      split
      · exact .nil
      · refine List.pairwise_append.mpr ⟨?_, ?_, ?_⟩
        · rw [List.pairwise_map]
          exact ih.imp fun h => Nat.succ_lt_succ h
        · cases separator.isPrefixOf? text <;> simp
        · intro p hp q hq
          obtain ⟨⟨field, rest⟩, hmem, rfl⟩ := List.mem_map.mp hp
          rw [Option.mem_toList, Option.map_eq_some_iff] at hq
          obtain ⟨rest', -, rfl⟩ := hq
          have hpos : 0 < field.length := List.length_pos_iff.mpr (mem_cuts.mp hmem).1.1
          simpa using hpos

/-! ## The cut in use -/

theorem isCut_iff {separator line first second third : List Char} :
    IsCut separator line first second third ↔
      (first, second ++ (separator ++ third)) ∈ cuts separator line ∧
        (second, third) ∈ cuts separator (second ++ (separator ++ third)) ∧ IsWord third := by
  rw [mem_cuts, mem_cuts]
  constructor
  · rintro ⟨hline, hfirst, hsecond, hthird⟩
    exact ⟨⟨hfirst, hline⟩, ⟨hsecond, rfl⟩, hthird⟩
  · rintro ⟨⟨hfirst, hline⟩, ⟨hsecond, -⟩, hthird⟩
    exact ⟨hline, hfirst, hsecond, hthird⟩

theorem fields?_eq_none_iff {separator line : List Char} :
    fields? separator line = none ↔
      ∀ first second third, ¬ IsCut separator line first second third := by
  simp only [fields?, List.findSome?_eq_none_iff, Option.map_eq_none_iff, List.find?_eq_none,
    isField_eq_true_iff]
  constructor
  · intro h first second third hcut
    obtain ⟨hline, hrest, hthird⟩ := isCut_iff.mp hcut
    exact h _ hline _ hrest hthird
  · rintro h ⟨first, rest⟩ hline ⟨second, third⟩ hrest hthird
    obtain ⟨-, hrest'⟩ := mem_cuts.mp hrest
    subst hrest'
    exact h first second third (isCut_iff.mpr ⟨hline, hrest, hthird⟩)

/-- Of a list in order, everything behind an element is related to it. -/
theorem mem_or_eq_or_rel {α : Type} {R : α → α → Prop} {before after : List α} {x y : α}
    (h : (before ++ x :: after).Pairwise R) (hy : y ∈ before ++ x :: after) :
    y ∈ before ∨ y = x ∨ R x y := by
  rcases List.mem_append.mp hy with hy | hy
  · exact .inl hy
  · rcases List.mem_cons.mp hy with rfl | hy
    · exact .inr (.inl rfl)
    · exact .inr (.inr ((List.pairwise_cons.mp (List.pairwise_append.mp h).2.1).1 y hy))

theorem isLongestCut_of_fields? {separator line first second third : List Char}
    (h : fields? separator line = some (first, second, third)) :
    IsLongestCut separator line first second third := by
  obtain ⟨before, ⟨first', rest⟩, after, hcuts, hfound, hbefore⟩ :=
    List.findSome?_eq_some_iff.mp h
  obtain ⟨⟨second', third'⟩, hfind, hpair⟩ := Option.map_eq_some_iff.mp hfound
  obtain ⟨rfl, hwords⟩ := Prod.mk.inj hpair
  obtain ⟨rfl, rfl⟩ := Prod.mk.inj hwords
  obtain ⟨hthird, before', after', hcuts', hbefore'⟩ := List.find?_eq_some_iff_append.mp hfind
  have hmem : (second', third') ∈ cuts separator rest := by simp [hcuts']
  obtain ⟨-, rfl⟩ := mem_cuts.mp hmem
  have hcut : IsCut separator line first' second' third' :=
    isCut_iff.mpr ⟨by simp [hcuts], hmem, isField_eq_true_iff.mp hthird⟩
  refine ⟨hcut, ?_⟩
  intro f s t hother
  obtain ⟨hline, hrest, ht⟩ := isCut_iff.mp hother
  have hsorted := pairwise_cuts separator line
  rw [hcuts] at hline hsorted
  rcases mem_or_eq_or_rel hsorted hline with hline | heq | hlt
  · -- an earlier first word has no cut of its rest
    have hnone := hbefore _ hline
    rw [Option.map_eq_none_iff, List.find?_eq_none] at hnone
    exact (hnone _ hrest (isField_eq_true_iff.mpr ht)).elim
  · obtain ⟨rfl, htail⟩ := Prod.mk.inj heq
    refine .inr ⟨rfl, ?_⟩
    have hsorted' := pairwise_cuts separator (second' ++ (separator ++ third'))
    rw [htail, hcuts'] at hrest
    rw [hcuts'] at hsorted'
    rcases mem_or_eq_or_rel hsorted' hrest with hrest | heq | hlt
    · have hnone := hbefore' _ hrest
      simp [isField_eq_true_iff.mpr ht] at hnone
    · obtain ⟨rfl, -⟩ := Prod.mk.inj heq
      exact Nat.le_refl _
    · exact Nat.le_of_lt hlt
  · exact .inl hlt

/-- Two cuts with first and second words of the same lengths are the same. -/
theorem IsCut.eq_of_length_eq {separator line f s t f' s' t' : List Char}
    (h : IsCut separator line f s t) (h' : IsCut separator line f' s' t')
    (hf : f.length = f'.length) (hs : s.length = s'.length) : f = f' ∧ s = s' ∧ t = t' := by
  have hline := h.line_eq.symm.trans h'.line_eq
  obtain ⟨rfl, hrest⟩ := List.append_inj hline hf
  obtain ⟨rfl, hlast⟩ := List.append_inj (List.append_cancel_left hrest) hs
  exact ⟨rfl, rfl, List.append_cancel_left hlast⟩

theorem IsLongestCut.unique {separator line f s t f' s' t' : List Char}
    (h : IsLongestCut separator line f s t) (h' : IsLongestCut separator line f' s' t') :
    f = f' ∧ s = s' ∧ t = t' := by
  have hle := h.longest f' s' t' h'.toIsCut
  have hge := h'.longest f s t h.toIsCut
  have hf : f.length = f'.length := by
    rcases hle with hlt | ⟨rfl, -⟩
    · rcases hge with hgt | ⟨rfl, -⟩
      · omega
      · rfl
    · rfl
  have hs : s.length = s'.length := by omega
  exact h.toIsCut.eq_of_length_eq h'.toIsCut hf hs

theorem fields?_eq_some_iff {separator line first second third : List Char} :
    fields? separator line = some (first, second, third) ↔
      IsLongestCut separator line first second third := by
  constructor
  · exact isLongestCut_of_fields?
  · intro h
    cases hfields : fields? separator line with
    | none => exact (fields?_eq_none_iff.mp hfields _ _ _ h.toIsCut).elim
    | some fields =>
        obtain ⟨first', second', third'⟩ := fields
        obtain ⟨rfl, rfl, rfl⟩ := h.unique (isLongestCut_of_fields? hfields)
        rfl

/-! ## A separator unlike the last two words -/

section

variable {separator : List Char}

/-- An occurrence that ends behind the first one would end among characters of the rest. -/
theorem eq_nil_of_append_separator_eq {front rest rest' : List Char} (hne : separator ≠ [])
    (hrest : separator.Disjoint rest)
    (h : front ++ (separator ++ rest') = separator ++ rest) : front = [] := by
  rw [← List.append_assoc] at h
  rcases List.append_eq_append_iff.mp h with ⟨more, hsep, -⟩ | ⟨more, hfront, hmore⟩
  · have hlength := congrArg List.length hsep
    simp only [List.length_append] at hlength
    exact List.length_eq_zero_iff.mp (by omega)
  · by_contra hne'
    have hmore_ne : more ≠ [] := by
      rintro rfl
      simp [hne'] at hfront
    have hlast : separator.getLast hne = more.getLast hmore_ne := by
      have hends := congrArg List.getLast? hfront
      rw [List.getLast?_append_of_ne_nil _ hne, List.getLast?_append_of_ne_nil _ hmore_ne,
        List.getLast?_eq_getLast_of_ne_nil hne,
        List.getLast?_eq_getLast_of_ne_nil hmore_ne] at hends
      exact Option.some.inj hends
    refine hrest (List.getLast_mem hne) ?_
    rw [hlast, hmore]
    exact List.mem_append_left _ (List.getLast_mem hmore_ne)

/-- Between words that share no character with the separator, it stands in one place only. -/
theorem eq_of_append_separator_eq {word word' rest rest' : List Char} (hne : separator ≠ [])
    (hword : separator.Disjoint word) (hrest : separator.Disjoint rest)
    (h : word' ++ (separator ++ rest') = word ++ (separator ++ rest)) : word' = word := by
  rcases List.append_eq_append_iff.mp h with ⟨more, hmore, htail⟩ | ⟨more, hmore, htail⟩
  · cases more with
    | nil => simp [hmore]
    | cons c more =>
        obtain ⟨d, sep, hsep⟩ := List.exists_cons_of_ne_nil hne
        have hhead : d = c := by
          rw [hsep] at htail
          exact (List.cons.inj htail).1
        refine (hword (a := d) (by simp [hsep]) ?_).elim
        simp [hmore, hhead]
  · rw [eq_nil_of_append_separator_eq hne hrest htail.symm, List.append_nil] at hmore
    exact hmore

theorem isLongestCut_of_disjoint {first second third : List Char} (hne : separator ≠ [])
    (hfirst : IsWord first) (hsecond : IsWord second) (hthird : IsWord third)
    (hdisj : separator.Disjoint second) (hdisj' : separator.Disjoint third) :
    IsLongestCut separator (first ++ (separator ++ (second ++ (separator ++ third))))
      first second third := by
  refine ⟨⟨rfl, hfirst, hsecond, hthird⟩, ?_⟩
  intro f s t hcut
  rcases List.append_eq_append_iff.mp hcut.line_eq with ⟨more, hf, htail⟩ | ⟨more, hf, htail⟩
  · -- A longer first word would push the first separator over the end of the second word.
    have hmore : more = [] := by
      have hassoc : (more ++ (separator ++ s)) ++ (separator ++ t) =
          separator ++ (second ++ (separator ++ third)) := by
        simp [htail]
      rcases List.append_eq_append_iff.mp hassoc with ⟨as, hsep, -⟩ | ⟨as, hfront, hrest⟩
      · have hlength := congrArg List.length hsep
        simp only [List.length_append] at hlength
        exact List.length_eq_zero_iff.mp (by omega)
      · rw [eq_of_append_separator_eq hne hdisj hdisj' hrest.symm] at hfront
        exact eq_nil_of_append_separator_eq hne hdisj hfront
    subst hmore
    have hs : s = second :=
      eq_of_append_separator_eq hne hdisj hdisj' (List.append_cancel_left htail.symm)
    right
    simpa [hs] using hf
  · cases more with
    | nil =>
        have hs : s = second :=
          eq_of_append_separator_eq hne hdisj hdisj' (List.append_cancel_left htail)
        right
        simpa [hs] using hf.symm
    | cons c more =>
        left
        simp [hf]

end

end VisitGraph.Text
