import VisitGraph.Proofs.Listing.Reading
import VisitGraph.Proofs.Text.Hexadecimal

/-! # Listings that are written and read back

A written line can be ambiguous, for a name may hold the separator or a part of it. It is read back
as written all the same: no other place but the last two leaves only digits behind the separator. -/

namespace VisitGraph.Listing

open Text

/-- A separator that cannot be mistaken for digits, and stays on one line. -/
structure Separates (separator : String) : Prop where
  ne_empty : separator ≠ ""
  noDigit : ∀ c ∈ separator.toList, c ∉ Hexadecimal.lowerDigits
  noBreak : ∀ c ∈ separator.toList, isBreak c = false

theorem separates_of_all {separator : String} (hne : separator ≠ "")
    (hdigits : separator.toList.all (!Hexadecimal.lowerDigits.contains ·) = true)
    (hbreaks : separator.toList.all (!isBreak ·) = true) : Separates separator := by
  refine ⟨hne, ?_, ?_⟩
  · simpa using hdigits
  · simpa using hbreaks

theorem separates_defaultSeparator : Separates defaultSeparator :=
  separates_of_all (by decide) (by decide) (by decide)

/-- An entry that can be written: its name is a word, and neither of its numbers is negative. -/
structure Writable (e : Entry) : Prop where
  name_isWord : IsWord e.name.toList
  start_nonneg : 0 ≤ e.start
  length_nonneg : 0 ≤ e.length

/-- The line of an entry. -/
def written (separator : String) (e : Entry) : List Char :=
  e.name.toList ++ (separator.toList ++
    (Hexadecimal.write e.start ++ (separator.toList ++ Hexadecimal.write e.length)))

theorem isWord_write {n : Int} (h : 0 ≤ n) : IsWord (Hexadecimal.write n) := by
  refine ⟨Hexadecimal.write_ne_nil n, ?_⟩
  intro c hc
  exact Hexadecimal.isBlank_of_mem_lowerDigits (Hexadecimal.mem_lowerDigits_of_mem_write h hc)

variable {separator : String}

theorem Separates.disjoint_write (hsep : Separates separator) {n : Int} (h : 0 ≤ n) :
    separator.toList.Disjoint (Hexadecimal.write n) := by
  intro c hc hdigit
  exact hsep.noDigit c hc (Hexadecimal.mem_lowerDigits_of_mem_write h hdigit)

theorem Separates.toList_ne_nil (hsep : Separates separator) : separator.toList ≠ [] := by
  intro h
  exact hsep.ne_empty (String.toList_eq_nil_iff.mp h)

theorem reads_written (hsep : Separates separator) {e : Entry} (he : Writable e) :
    Reads separator (written separator e) e := by
  refine ⟨Hexadecimal.write e.start, Hexadecimal.write e.length, ?_, ?_, ?_⟩
  · exact isLongestCut_of_disjoint hsep.toList_ne_nil he.name_isWord (isWord_write he.start_nonneg)
      (isWord_write he.length_nonneg) (hsep.disjoint_write he.start_nonneg)
      (hsep.disjoint_write he.length_nonneg)
  · exact Hexadecimal.read?_write e.start
  · exact Hexadecimal.read?_write e.length

theorem isContent_written (hsep : Separates separator) {e : Entry} (he : Writable e) :
    IsContent (written separator e) := by
  have hname := he.name_isWord
  have hstart := isWord_write he.start_nonneg
  have hlength := isWord_write he.length_nonneg
  refine ⟨?_, ?_, ?_, ?_⟩
  · simp [written, hname.1]
  · intro c hc
    simp only [written, List.mem_append] at hc
    rcases hc with hc | hc | hc | hc | hc
    · exact isBreak_eq_false_of_isBlank (hname.2 c hc)
    · exact hsep.noBreak c hc
    · exact isBreak_eq_false_of_isBlank (hstart.2 c hc)
    · exact hsep.noBreak c hc
    · exact isBreak_eq_false_of_isBlank (hlength.2 c hc)
  · intro c hc
    rw [written, List.head?_append_of_ne_nil _ hname.1] at hc
    exact hname.2 c (List.mem_of_mem_head? hc)
  · intro c hc
    have hlast : (written separator e).getLast? = (Hexadecimal.write e.length).getLast? := by
      simp only [written, ← List.append_assoc]
      exact List.getLast?_append_of_ne_nil _ hlength.1
    rw [hlast] at hc
    exact hlength.2 c (List.mem_of_getLast? hc)

/-- Entries are read back from any text in which their lines stand in order, whatever blanks and
breaks are around them, with every separator that holds neither a digit nor a break, such as the
default one. -/
theorem read_written :
    Separates defaultSeparator ∧
      ∀ separator : String, Separates separator →
        ∀ entries : List Entry, (∀ e ∈ entries, Writable e) →
          ∀ text : String, LaidOut (entries.map (written separator)) text.toList →
            read separator text = .ok entries := by
  refine ⟨separates_defaultSeparator, ?_⟩
  intro separator hsep entries hentries text htext
  have hcontents : contents text.toList = entries.map (written separator) := by
    refine htext.contents_eq ?_
    rw [List.forall_mem_map]
    intro e he
    exact isContent_written hsep (hentries e he)
  rw [read_eq_ok, hcontents, List.forall₂_map_left_iff, List.forall₂_same]
  exact ⟨hsep.ne_empty, fun e he => reads_written hsep (hentries e he)⟩

/-- Names that end and begin like the separator, between breaks of several kinds. -/
theorem read_written_overlap :
    let entries : List Entry := [⟨";a;", 31, 16⟩, ⟨";;1;;2", 0, 255⟩]
    let text := "\t;a;;;1f;;10 \r\n\n ;;1;;2;;0;;ff\x0c"
    Separates ";;" ∧ (∀ e ∈ entries, Writable e) ∧
      LaidOut (entries.map (written ";;")) text.toList ∧ read ";;" text = .ok entries := by
  intro entries text
  have hsep : Separates ";;" := separates_of_all (by decide) (by decide) (by decide)
  have hentries : ∀ e ∈ entries, Writable e := by
    rw [List.forall_mem_cons, List.forall_mem_singleton]
    constructor
    · exact ⟨isField_eq_true_iff.mp (by decide), by decide, by decide⟩
    · exact ⟨isField_eq_true_iff.mp (by decide), by decide, by decide⟩
  have htext : LaidOut (entries.map (written ";;")) text.toList := by
    have hpieces : text.toList = ['\t'] ++ (written ";;" ⟨";a;", 31, 16⟩ ++ ([' '] ++ '\r' ::
        (['\n', '\n', ' '] ++ (written ";;" ⟨";;1;;2", 0, 255⟩ ++ ['\x0c'])))) := by
      decide +kernel
    rw [hpieces]
    have hblanks : ∀ {blanks : List Char}, blanks.all isBlank = true → AllBlank blanks :=
      List.all_eq_true.mp
    exact .line (hblanks (by decide)) (hblanks (by decide)) (by decide)
      (.last (hblanks (by decide)) (hblanks (by decide)))
  exact ⟨hsep, hentries, htext, read_written.2 ";;" hsep entries hentries text htext⟩

end VisitGraph.Listing
