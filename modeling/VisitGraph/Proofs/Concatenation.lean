import Std.Data.String.ToInt
import VisitGraph.Listing
import VisitGraph.Proofs.Outcome
import VisitGraph.Proofs.Text.Seam
import VisitGraph.Trace

/-! # Texts one after the other

Traces and listings are read line by line, and only a complaint depends on the number of its line.
So two texts with a line feed between them are read one after the other, and a complaint about the
second names a line that is as much further down as the first text has lines. -/

namespace VisitGraph

open Text

variable {α : Type} {lead : String} {readLine : ℕ → List Char → Except Fault α}

/-- A line is read alike wherever it stands. Only a complaint names the number of the line. -/
def Numbered (lead : String) (readLine : ℕ → List Char → Except Fault α) : Prop :=
  ∀ line, (∃ x, ∀ number, readLine number line = .ok x) ∨
    ∃ (fault : ℕ → Fault) (complaint : String), ∀ number,
      readLine number line = .error (fault number) ∧
        (fault number).message = lead ++ toString number ++ ": " ++ complaint

/-- Texts with a line feed between them are read one after the other. A complaint is about the first
line that cannot be read, with its number among all lines of the text. -/
structure Concatenates (lead : String) (readLine : ℕ → List Char → Except Fault α)
    (read : String → Except Fault (List α)) : Prop where
  ok : ∀ front rest xs ys, read front = .ok xs → read rest = .ok ys →
    read (front ++ "\n" ++ rest) = .ok (xs ++ ys)
  error_front : ∀ front rest fault, read front = .error fault →
    read (front ++ "\n" ++ rest) = .error fault
  error_rest : ∀ front rest xs fault number complaint,
    read front = .ok xs → read rest = .error fault →
      fault.message = lead ++ toString number ++ ": " ++ complaint →
        ∃ fault', read (front ++ "\n" ++ rest) = .error fault' ∧ fault'.message =
          lead ++ toString (number + (lines (front ++ "\n").toList).length) ++ ": " ++ complaint
  first_bad : ∀ text fault, read text = .error fault →
    ∃ before line after complaint, lines text.toList = before ++ line :: after ∧ trim line ≠ [] ∧
      readLine (before.length + 1) (trim line) = .error fault ∧
      fault.message = lead ++ toString (before.length + 1) ++ ": " ++ complaint ∧
      ∀ l ∈ before, trim l ≠ [] → ∃ x, ∀ number, readLine number (trim l) = .ok x

/-! ## The line a message names -/

theorem colon_notMem_toString (n : ℕ) : ':' ∉ (toString n).toList := by
  intro h
  change ':' ∈ n.repr.toList at h
  rw [Nat.toList_repr] at h
  exact absurd (Nat.isDigit_of_mem_toDigits (by decide) (by decide) h) (by decide)

/-- What stands before the first colon is what a number was told with. -/
theorem takeWhile_toString (n : ℕ) (rest : List Char) :
    ((toString n).toList ++ ':' :: rest).takeWhile (· ≠ ':') = (toString n).toList := by
  have hdigits : ∀ c ∈ (toString n).toList, decide (c ≠ ':') = true := by
    intro c hc
    apply decide_eq_true
    rintro rfl
    exact colon_notMem_toString n hc
  rw [List.takeWhile_append_of_pos hdigits, List.takeWhile_cons_of_neg (by decide),
    List.append_nil]

/-- A message names one line only. -/
theorem message_inj {lead complaint complaint' : String} {number number' : ℕ}
    (h : lead ++ toString number ++ ": " ++ complaint =
      lead ++ toString number' ++ ": " ++ complaint') :
    number = number' ∧ complaint = complaint' := by
  simp only [String.append_assoc, String.append_right_inj] at h
  have hcolon : ": ".toList = [':', ' '] := rfl
  have hlist := congrArg String.toList h
  simp only [String.toList_append, hcolon, List.cons_append, List.nil_append] at hlist
  have hnumber := congrArg (List.takeWhile (· ≠ ':')) hlist
  rw [takeWhile_toString, takeWhile_toString, String.toList_inj] at hnumber
  rw [hnumber, List.append_cancel_left_eq, List.cons.injEq, List.cons.injEq] at hlist
  exact ⟨Nat.repr_inj.mp hnumber, String.toList_inj.mp hlist.2.2⟩

/-! ## Lines with other numbers -/

/-- Reads numbered lines in order. -/
def readAll (readLine : ℕ → List Char → Except Fault α) (numbered : List (ℕ × List Char)) :
    Except Fault (List α) :=
  numbered.mapM fun (number, line) => readLine number line

theorem Numbered.readLine_ok (h : Numbered lead readLine) {number : ℕ} {line : List Char} {x : α}
    (hx : readLine number line = .ok x) (number' : ℕ) : readLine number' line = .ok x := by
  rcases h line with ⟨x', hx'⟩ | ⟨fault, complaint, hfault⟩
  · rw [hx' number', ← hx' number, hx]
  · rw [(hfault number).1] at hx
    cases hx

theorem Numbered.readLine_error (h : Numbered lead readLine) {number : ℕ} {line : List Char}
    {fault : Fault} (hfault : readLine number line = .error fault) :
    ∃ complaint, fault.message = lead ++ toString number ++ ": " ++ complaint ∧
      ∀ number', ∃ fault', readLine number' line = .error fault' ∧
        fault'.message = lead ++ toString number' ++ ": " ++ complaint := by
  rcases h line with ⟨x, hx⟩ | ⟨fault', complaint, hfault'⟩
  · rw [hx number] at hfault
    cases hfault
  · obtain rfl : fault' number = fault := Except.error.inj ((hfault' number).1.symm.trans hfault)
    exact ⟨complaint, (hfault' number).2, fun number' => ⟨fault' number', hfault' number'⟩⟩

theorem Numbered.readAll_ok (h : Numbered lead readLine) {numbered : List (ℕ × List Char)}
    {xs : List α} (hxs : readAll readLine numbered = .ok xs) (n : ℕ) :
    readAll readLine (numbered.map (Prod.map (· + n) id)) = .ok xs := by
  rw [readAll, mapM_eq_ok] at hxs ⊢
  rw [List.forall₂_map_left_iff]
  apply hxs.imp
  rintro ⟨number, line⟩ x hx
  exact h.readLine_ok hx (number + n)

theorem Numbered.readAll_error (h : Numbered lead readLine) {numbered : List (ℕ × List Char)}
    {fault : Fault} (hfault : readAll readLine numbered = .error fault) (n : ℕ) :
    ∃ number complaint fault',
      fault.message = lead ++ toString number ++ ": " ++ complaint ∧
        readAll readLine (numbered.map (Prod.map (· + n) id)) = .error fault' ∧
        fault'.message = lead ++ toString (number + n) ++ ": " ++ complaint := by
  rw [readAll, mapM_eq_error] at hfault
  obtain ⟨before, ⟨number, line⟩, after, rfl, hbefore, hline⟩ := hfault
  obtain ⟨complaint, hmessage, hmoved⟩ := h.readLine_error hline
  obtain ⟨fault', hfault', hmessage'⟩ := hmoved (number + n)
  refine ⟨number, complaint, fault', hmessage, ?_, hmessage'⟩
  rw [readAll, mapM_eq_error, firstDefect_map]
  refine ⟨before, (number, line), after, rfl, ?_, hfault'⟩
  -- a line before it that failed further down would have failed where it stood
  rintro ⟨number', line'⟩ hmem e he
  obtain ⟨complaint', hmessage', hmoved'⟩ := h.readLine_error he
  obtain ⟨e', he', hmoved'⟩ := hmoved' number'
  exact hbefore (number', line') hmem e' he'

/-! ## Two texts -/

theorem readAll_append_feed (readLine : ℕ → List Char → Except Fault α) (front rest : String) :
    readAll readLine (filledLines (front ++ "\n" ++ rest).toList) =
      readAll readLine (filledLines front.toList) >>= fun xs =>
        readAll readLine ((filledLines rest.toList).map
          (Prod.map (· + (lines (front ++ "\n").toList).length) id)) >>= fun ys =>
            pure (xs ++ ys) := by
  have htext : (front ++ "\n" ++ rest).toList = front.toList ++ '\n' :: rest.toList := by simp
  have hfront : (front ++ "\n").toList = front.toList ++ ['\n'] := by simp
  rw [htext, hfront, filledLines_append_feed, readAll, List.mapM_append]
  rfl

/-- The line at which reading stops is the first that cannot be read, wherever it would stand. -/
theorem Numbered.exists_first_bad (h : Numbered lead readLine) {text : List Char} {fault : Fault}
    (hfault : readAll readLine (filledLines text) = .error fault) :
    ∃ before line after, lines text = before ++ line :: after ∧ trim line ≠ [] ∧
      readLine (before.length + 1) (trim line) = .error fault ∧
        ∀ l ∈ before, trim l ≠ [] → ∃ x, ∀ number, readLine number (trim l) = .ok x := by
  rw [readAll, mapM_eq_error, filledLines_eq] at hfault
  obtain ⟨earlier, ⟨number, content⟩, later, hsplit, hearlier, hcontent⟩ := hfault
  obtain ⟨before, line, after, hlines, rfl, hline, rfl⟩ := filledFrom_eq_append_cons hsplit
  obtain ⟨hne, rfl⟩ := content?_eq_some_iff.mp hline
  rw [Nat.add_comm] at hcontent
  refine ⟨before, line, after, hlines, hne, hcontent, ?_⟩
  intro l hl hne'
  obtain ⟨number, hmem⟩ :=
    exists_mem_filledFrom 1 hl (content?_eq_some_iff.mpr ⟨hne', rfl⟩)
  rcases h (trim l) with hok | ⟨fault', complaint, hfault'⟩
  · exact hok
  · exact absurd (hfault' number).1 (hearlier _ hmem _)

theorem Numbered.concatenates (h : Numbered lead readLine) :
    Concatenates lead readLine fun text => readAll readLine (filledLines text.toList) := by
  constructor
  · intro front rest xs ys hxs hys
    rw [readAll_append_feed, hxs, bind_eq_ok]
    refine ⟨xs, rfl, ?_⟩
    rw [h.readAll_ok hys]
    rfl
  · intro front rest fault hfault
    rw [readAll_append_feed, hfault]
    rfl
  · intro front rest xs fault number complaint hxs hfault hmessage
    obtain ⟨number', complaint', fault', hmessage', hfault', hmoved⟩ :=
      h.readAll_error hfault (lines (front ++ "\n").toList).length
    obtain ⟨rfl, rfl⟩ := message_inj (hmessage.symm.trans hmessage')
    refine ⟨fault', ?_, hmoved⟩
    rw [readAll_append_feed, hxs, bind_eq_error]
    right
    refine ⟨xs, rfl, ?_⟩
    rw [hfault']
    rfl
  · intro text fault hfault
    obtain ⟨before, line, after, hlines, hne, hline, hbefore⟩ := h.exists_first_bad hfault
    obtain ⟨complaint, hmessage, -⟩ := h.readLine_error hline
    exact ⟨before, line, after, complaint, hlines, hne, hline, hmessage, hbefore⟩

/-! ## Traces and listings -/

/-- A colon inside a message that is put together can be told apart from what follows it. -/
theorem append_colon {told : String} (complaint : String) (h : told = ": " ++ complaint)
    (lead number rest : String) :
    lead ++ number ++ told ++ rest = lead ++ number ++ ": " ++ (complaint ++ rest) := by
  rw [h]
  simp only [String.append_assoc]

theorem Trace.invalidAddress_message (number : ℕ) (text : String) :
    (Fault.invalidAddress number text).message =
      "trace line " ++ toString number ++ ": " ++
        ("invalid hexadecimal address " ++ inQuotes text) := by
  rw [← append_colon "invalid hexadecimal address " rfl]
  rfl

theorem Trace.negativeAddress_message (number : ℕ) (text : String) :
    (Fault.negativeAddress number text).message =
      "trace line " ++ toString number ++ ": " ++ ("negative address " ++ inQuotes text) := by
  rw [← append_colon "negative address " rfl]
  rfl

theorem Listing.invalidField_message (number : ℕ) (field : Field) (text : String) :
    (Fault.invalidField number field text).message =
      "line " ++ toString number ++ ": " ++
        ("invalid hexadecimal " ++ (field.name ++ (" " ++ inQuotes text))) := by
  rw [← append_colon "invalid hexadecimal " rfl, ← String.append_assoc, ← String.append_assoc]
  rfl

theorem Listing.malformedLine_message (number : ℕ) (separator text : String) :
    (Fault.malformedLine number separator text).message =
      "line " ++ toString number ++ ": " ++
        ("expected <name>" ++ (separator ++ ("<start>" ++
          (separator ++ ("<length>, got " ++ inQuotes text))))) := by
  rw [← append_colon "expected <name>" rfl, ← String.append_assoc, ← String.append_assoc,
    ← String.append_assoc, ← String.append_assoc]
  rfl

theorem Trace.numbered : Numbered "trace line " Trace.readLine := by
  intro line
  cases hread : Hexadecimal.read? line with
  | none =>
      right
      refine ⟨fun number => .invalidAddress number (String.ofList line), _,
        fun number => ⟨?_, Trace.invalidAddress_message number _⟩⟩
      rw [Trace.readLine, hread]
  | some address =>
      by_cases hsign : address < 0
      · right
        refine ⟨fun number => .negativeAddress number (String.ofList line), _,
          fun number => ⟨?_, Trace.negativeAddress_message number _⟩⟩
        simp only [Trace.readLine, hread, if_pos hsign]
      · left
        refine ⟨address, fun number => ?_⟩
        simp only [Trace.readLine, hread, if_neg hsign]

theorem Listing.numbered (separator : String) :
    Numbered "line " (Listing.readLine separator) := by
  intro line
  cases hfields : fields? separator.toList line with
  | none =>
      right
      refine ⟨fun number => .malformedLine number separator (String.ofList line), _,
        fun number => ⟨?_, Listing.malformedLine_message number separator _⟩⟩
      rw [Listing.readLine, hfields]
  | some words =>
      obtain ⟨name, start, length⟩ := words
      simp only [Listing.readLine, hfields, Listing.readField]
      cases hstart : Hexadecimal.read? start with
      | none =>
          right
          exact ⟨fun number => .invalidField number .start (String.ofList start), _,
            fun number => ⟨rfl, Listing.invalidField_message number .start _⟩⟩
      | some n =>
          cases hlength : Hexadecimal.read? length with
          | none =>
              right
              exact ⟨fun number => .invalidField number .length (String.ofList length), _,
                fun number => ⟨rfl, Listing.invalidField_message number .length _⟩⟩
          | some m => exact .inl ⟨_, fun number => rfl⟩

/-- Both readers read two texts one after the other. -/
theorem readers_concatenate :
    Concatenates "trace line " Trace.readLine Trace.read ∧
      ∀ separator, separator ≠ "" →
        Concatenates "line " (Listing.readLine separator) (Listing.read separator) := by
  refine ⟨Trace.numbered.concatenates, ?_⟩
  intro separator hseparator
  have hread : Listing.read separator =
      fun text => readAll (Listing.readLine separator) (filledLines text.toList) := by
    funext text
    exact if_neg (by simpa using hseparator)
  rw [hread]
  exact (Listing.numbered separator).concatenates

/-- The return at the end of the first text joins the line feed, so one line is added to the number
in the second. -/
theorem readers_concatenate_across_return :
    Trace.read "1f\r" = .ok [31] ∧
      Trace.read "\u000c zz" = .error (.invalidAddress 2 "zz") ∧
      (Fault.invalidAddress 2 "zz").message =
        "trace line " ++ toString 2 ++ ": " ++ "invalid hexadecimal address 'zz'" ∧
      (∃ fault, Trace.read ("1f\r" ++ "\n" ++ "\u000c zz") = .error fault ∧ fault.message =
        "trace line " ++ toString (2 + 1) ++ ": " ++ "invalid hexadecimal address 'zz'") ∧
      ";;" ≠ "" ∧
      Listing.read ";;" "f;;0;;a" = .ok [⟨"f", 0, 10⟩] ∧
      Listing.read ";;" "g;;a;;2" = .ok [⟨"g", 10, 2⟩] ∧
      Listing.read ";;" ("f;;0;;a" ++ "\n" ++ "g;;a;;2") = .ok [⟨"f", 0, 10⟩, ⟨"g", 10, 2⟩] := by
  have hfront : Trace.read "1f\r" = .ok [31] := rfl
  have hrest : Trace.read "\u000c zz" = .error (.invalidAddress 2 "zz") := rfl
  have hmessage : (Fault.invalidAddress 2 "zz").message =
      "trace line " ++ toString 2 ++ ": " ++ "invalid hexadecimal address 'zz'" := by
    decide +kernel
  have hne : ";;" ≠ "" := by decide
  have hf : Listing.read ";;" "f;;0;;a" = .ok [⟨"f", 0, 10⟩] := rfl
  have hg : Listing.read ";;" "g;;a;;2" = .ok [⟨"g", 10, 2⟩] := rfl
  exact ⟨hfront, hrest, hmessage,
    readers_concatenate.1.error_rest _ _ _ _ 2 _ hfront hrest hmessage, hne, hf, hg,
    (readers_concatenate.2 ";;" hne).ok _ _ _ _ hf hg⟩

end VisitGraph
