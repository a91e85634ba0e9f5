import Mathlib.Data.List.TakeWhile
import VisitGraph.Diagram.Dot
import VisitGraph.Proofs.Text.Words

/-! # Reading the statements of a diagram

Every statement stands on a line of its own, and is read word by word. Which of the identifiers are
quoted does not matter: as long as no text has a quote in it, the quotes around it can be taken away
wherever they stand. -/

namespace VisitGraph.Dot

open Text

/-- An identifier without the quotes around it. -/
def unquote (word : String) : String :=
  (between? "\"" "\"" word).getD word

/-- The words of a statement, behind the tab that begins its line. -/
def statementWords? (line : String) : Option (List String) :=
  (between? "\t" "" line).map wordsOf

/-- Reads the statement that declares a node. -/
def readNode? (line : String) : Option Node := do
  match ← statementWords? line with
  | [id, label, color, "height=0.5", "shape=ellipse]"] =>
    return ⟨unquote id, unquote (← between? "[label=" "" label),
      unquote (← between? "fontcolor=" "" color), false⟩
  | [id, label, color, "height=0.5", "shape=ellipse", "style=bold]"] =>
    return ⟨unquote id, unquote (← between? "[label=" "" label),
      unquote (← between? "fontcolor=" "" color), true⟩
  | _ => none

/-- Reads the statement that draws an arrow. -/
def readArrow? (line : String) : Option Arrow := do
  match ← statementWords? line with
  | [source, "->", target, label] =>
    return ⟨unquote source, unquote target, unquote (← between? "[label=" "]" label), none⟩
  | [source, "->", target, label, color] =>
    return ⟨unquote source, unquote target, unquote (← between? "[label=" "" label),
      some (unquote (← between? "color=" "]" color))⟩
  | _ => none

/-! ## Identifiers -/

/-- A single word that can be put between quotes as it stands. -/
structure Quotable (text : String) : Prop where
  solid : Solid text
  notMem_quote : '"' ∉ text.toList

instance : DecidablePred Quotable := fun text =>
  decidable_of_iff (Solid text ∧ '"' ∉ text.toList)
    ⟨fun h => ⟨h.1, h.2⟩, fun h => ⟨h.1, h.2⟩⟩

theorem quotable_of_plain {text : String} (h : Plain text.toList) : Quotable text :=
  ⟨solid_of_plain h, h.notMem (by decide)⟩

theorem Quotable.append {front rest : String} (hfront : Quotable front) (hrest : Quotable rest) :
    Quotable (front ++ rest) := by
  refine ⟨hfront.solid.append hrest.solid, ?_⟩
  rw [String.toList_append, List.mem_append, not_or]
  exact ⟨hfront.notMem_quote, hrest.notMem_quote⟩

theorem append_ne {front whole : String} (h : ¬ front.toList <+: whole.toList) (rest : String) :
    front ++ rest ≠ whole := by
  rintro rfl
  exact h (by simp)

theorem escapeQuotes_eq_self {text : List Char} (h : '"' ∉ text) (odd : Bool) :
    escapeQuotes odd text = text := by
  induction text generalizing odd with
  | nil => rfl
  | cons c text ih =>
      obtain ⟨hc, htext⟩ := not_or.mp (List.mem_cons.not.mp h)
      have hquote : ¬ (c = '"' ∧ odd = false) := fun hodd => hc hodd.1.symm
      rw [escapeQuotes, ih htext, ih htext, if_neg hquote, ite_self]

namespace Quotable

variable {text : String}

/-- The identifier is the text, with or without quotes around it. -/
theorem identifier_eq (h : Quotable text) :
    identifier text = text ∨ identifier text = "\"" ++ text ++ "\"" := by
  rw [identifier]
  split
  · exact .inl rfl
  · right
    apply String.toList_injective
    simp [escapeQuotes_eq_self h.notMem_quote]

theorem solid_identifier (h : Quotable text) : Solid (identifier text) := by
  rcases h.identifier_eq with heq | heq
  · rw [heq]
    exact h.solid
  · rw [heq]
    exact (Solid.append (by decide) h.solid).append (by decide)

theorem unquote_identifier (h : Quotable text) : unquote (identifier text) = text := by
  rcases h.identifier_eq with heq | heq
  · have hbare : between? "\"" "\"" text = none := by
      rw [Option.eq_none_iff_forall_ne_some]
      intro inner hinner
      rw [between?_eq_some_iff] at hinner
      exact h.notMem_quote (by simp [← hinner])
    rw [heq, unquote, hbare, Option.getD_none]
  · rw [heq, unquote, between?_append, Option.getD_some]

end Quotable

theorem splitColon_of_notMem {text : List Char} (h : ':' ∉ text) :
    splitColon text = (text, []) := by
  have hall : ∀ c ∈ text, (c != ':') = true := by
    intro c hc
    simpa using ne_of_mem_of_not_mem hc h
  rw [splitColon, List.takeWhile_eq_self_iff.mpr hall, List.dropWhile_eq_nil_iff.mpr hall]
  rfl

/-- Without a colon in it, an end of an arrow is a single identifier. -/
theorem arrowEnd_eq {text : String} (h : ':' ∉ text.toList) : arrowEnd text = identifier text := by
  rw [arrowEnd, splitColon_of_notMem h]
  simp

/-! ## The line of a node -/

/-- A node whose texts can be put between quotes. -/
structure Declarable (n : Node) : Prop where
  id : Quotable n.id
  label : Quotable n.label
  color : Quotable n.color

/-- The words of the statement that declares a node. -/
def nodeWords (n : Node) : List String :=
  [identifier n.id, "[label=" ++ identifier n.label, "fontcolor=" ++ identifier n.color,
    "height=0.5"] ++ if n.bold then ["shape=ellipse", "style=bold]"] else ["shape=ellipse]"]

/-- The line that declares a node. -/
def nodeLine (n : Node) : String :=
  "\t" ++ " ".intercalate (nodeWords n)

theorem nodeStatement_eq (n : Node) : nodeStatement n = nodeLine n ++ "\n" := by
  have hheight : setting "height" nodeHeight = "height=0.5" := by decide
  have hshape : setting "shape" nodeShape = "shape=ellipse" := by decide
  have hstyle : setting "style" "bold" = "style=bold" := by decide
  apply String.toList_injective
  rw [nodeStatement, hheight, hshape, hstyle, nodeLine, nodeWords]
  cases n.bold <;> simp [statement, setting, toString]

theorem Declarable.solid_nodeWords {n : Node} (h : Declarable n) :
    ∀ w ∈ nodeWords n, Solid w := by
  refine List.forall_mem_append.mpr ⟨?_, by cases n.bold <;> decide⟩
  simp only [List.forall_mem_cons]
  exact ⟨h.id.solid_identifier, .append (by decide) h.label.solid_identifier,
    .append (by decide) h.color.solid_identifier, by decide, by simp⟩

theorem Declarable.statementWords?_nodeLine {n : Node} (h : Declarable n) :
    statementWords? (nodeLine n) = some (nodeWords n) := by
  rw [statementWords?, nodeLine, between?_front, Option.map_some,
    wordsOf_intercalate h.solid_nodeWords (by simp [nodeWords])]

theorem Declarable.readNode?_nodeLine {n : Node} (h : Declarable n) :
    readNode? (nodeLine n) = some n := by
  obtain ⟨id, label, color, bold⟩ := n
  rw [readNode?, h.statementWords?_nodeLine, Option.bind_eq_bind, Option.bind_some, nodeWords]
  cases bold <;>
    simp [between?_front, h.id.unquote_identifier, h.label.unquote_identifier,
      h.color.unquote_identifier]

/-- The statement of a node is not mistaken for that of an arrow. -/
theorem Declarable.readArrow?_nodeLine {n : Node} (h : Declarable n) :
    readArrow? (nodeLine n) = none := by
  rw [readArrow?, h.statementWords?_nodeLine, Option.bind_eq_bind, Option.bind_some, nodeWords]
  have hlabel : "[label=" ++ identifier n.label ≠ "->" := append_ne (by decide) _
  cases n.bold <;> simp [hlabel]

/-! ## The line of an arrow -/

/-- An arrow whose texts can be put between quotes, and whose ends are whole nodes. -/
structure Drawable (w : Arrow) : Prop where
  source : Quotable w.source
  target : Quotable w.target
  source_whole : ':' ∉ w.source.toList
  target_whole : ':' ∉ w.target.toList
  label : Quotable w.label
  color : ∀ color ∈ w.color?, Quotable color

/-- The words of the settings of an arrow. -/
def settingWords (label : String) : Option String → List String
  | none => ["[label=" ++ identifier label ++ "]"]
  | some color => ["[label=" ++ identifier label, "color=" ++ identifier color ++ "]"]

/-- The words of the statement that draws an arrow. -/
def arrowWords (w : Arrow) : List String :=
  [identifier w.source, "->", identifier w.target] ++ settingWords w.label w.color?

/-- The line that draws an arrow. -/
def arrowLine (w : Arrow) : String :=
  "\t" ++ " ".intercalate (arrowWords w)

namespace Drawable

variable {w : Arrow}

theorem arrowStatement_eq (h : Drawable w) : arrowStatement w = arrowLine w ++ "\n" := by
  apply String.toList_injective
  rw [arrowStatement, arrowEnd_eq h.source_whole, arrowEnd_eq h.target_whole, arrowLine, arrowWords]
  cases w.color? <;> simp [statement, setting, settingWords, toString]

theorem solid_arrowWords (h : Drawable w) : ∀ word ∈ arrowWords w, Solid word := by
  have hlabel : Solid ("[label=" ++ identifier w.label) :=
    .append (by decide) h.label.solid_identifier
  refine List.forall_mem_append.mpr ⟨?_, ?_⟩
  · simp only [List.forall_mem_cons]
    exact ⟨h.source.solid_identifier, by decide, h.target.solid_identifier, by simp⟩
  · cases hcolor : w.color? with
    | none => exact List.forall_mem_singleton.mpr (hlabel.append (by decide))
    | some color =>
        have hquotable := (h.color color hcolor).solid_identifier
        simp only [settingWords, List.forall_mem_cons]
        exact ⟨hlabel, (Solid.append (by decide) hquotable).append (by decide), by simp⟩

theorem statementWords?_arrowLine (h : Drawable w) :
    statementWords? (arrowLine w) = some (arrowWords w) := by
  rw [statementWords?, arrowLine, between?_front, Option.map_some,
    wordsOf_intercalate h.solid_arrowWords (by simp [arrowWords])]

theorem readArrow?_arrowLine (h : Drawable w) : readArrow? (arrowLine w) = some w := by
  rw [readArrow?, h.statementWords?_arrowLine, Option.bind_eq_bind, Option.bind_some, arrowWords]
  obtain ⟨source, target, label, color?⟩ := w
  cases color? with
  | none =>
      simp [settingWords, between?_append, h.source.unquote_identifier,
        h.target.unquote_identifier, h.label.unquote_identifier]
  | some color =>
      simp [settingWords, between?_append, between?_front, h.source.unquote_identifier,
        h.target.unquote_identifier, h.label.unquote_identifier,
        (h.color color rfl).unquote_identifier]

/-- The statement of an arrow is not mistaken for that of a node. -/
theorem readNode?_arrowLine (h : Drawable w) : readNode? (arrowLine w) = none := by
  rw [readNode?, h.statementWords?_arrowLine, Option.bind_eq_bind, Option.bind_some, arrowWords]
  cases w.color? with
  | none => rfl
  | some color =>
      have hlabel : "[label=" ++ identifier w.label ≠ "height=0.5" := append_ne (by decide) _
      simp [settingWords, hlabel]

end Drawable

/-! ## The lines of a diagram -/

/-- A diagram whose texts can be put between quotes. -/
structure Presentable (d : Diagram) : Prop where
  nodes : ∀ n ∈ d.nodes, Declarable n
  arrows : ∀ w ∈ d.arrows, Drawable w

/-- The lines below the header: the nodes, the arrows, and the closing brace. -/
def bodyLines (d : Diagram) : List String :=
  d.nodes.map nodeLine ++ d.arrows.map arrowLine ++ ["\x7d"]

namespace Presentable

variable {d : Diagram}

theorem toDot_eq (h : Presentable d) :
    d.toDot = header d.name ++ Printout.ofLines (bodyLines d) := by
  have hnodes : d.nodes.map nodeStatement = d.nodes.map fun n => nodeLine n ++ "\n" :=
    List.map_congr_left fun n _ => nodeStatement_eq n
  have harrows : d.arrows.map arrowStatement = d.arrows.map fun w => arrowLine w ++ "\n" :=
    List.map_congr_left fun w hw => (h.arrows w hw).arrowStatement_eq
  rw [Diagram.toDot, hnodes, harrows, Printout.ofLines, bodyLines, List.map_append,
    List.map_append, List.map_map, List.map_map, String.join_append, String.join_append]
  simp only [String.append_assoc]
  rfl

theorem unbroken_bodyLines (h : Presentable d) : ∀ line ∈ bodyLines d, Unbroken line := by
  refine List.forall_mem_append.mpr ⟨List.forall_mem_append.mpr ⟨?_, ?_⟩, by decide⟩
  · refine List.forall_mem_map.mpr fun n hn => ?_
    exact .append (by decide) (unbroken_intercalate (h.nodes n hn).solid_nodeWords)
  · refine List.forall_mem_map.mpr fun w hw => ?_
    exact .append (by decide) (unbroken_intercalate (h.arrows w hw).solid_arrowWords)

theorem linesOf_bodyLines (h : Presentable d) :
    linesOf (Printout.ofLines (bodyLines d)) = bodyLines d :=
  linesOf_ofLines h.unbroken_bodyLines

theorem filterMap_readNode? (h : Presentable d) : (bodyLines d).filterMap readNode? = d.nodes := by
  have hnodes : (d.nodes.map nodeLine).filterMap readNode? = d.nodes := by
    rw [List.filterMap_map]
    exact (List.filterMap_congr fun n hn => (h.nodes n hn).readNode?_nodeLine).trans
      List.filterMap_some
  have harrows : (d.arrows.map arrowLine).filterMap readNode? = [] := by
    rw [List.filterMap_map, List.filterMap_eq_nil_iff]
    exact fun w hw => (h.arrows w hw).readNode?_arrowLine
  have hclosing : ["\x7d"].filterMap readNode? = [] := by decide
  rw [bodyLines, List.filterMap_append, List.filterMap_append, hnodes, harrows, hclosing,
    List.append_nil, List.append_nil]

theorem filterMap_readArrow? (h : Presentable d) :
    (bodyLines d).filterMap readArrow? = d.arrows := by
  have hnodes : (d.nodes.map nodeLine).filterMap readArrow? = [] := by
    rw [List.filterMap_map, List.filterMap_eq_nil_iff]
    exact fun n hn => (h.nodes n hn).readArrow?_nodeLine
  have harrows : (d.arrows.map arrowLine).filterMap readArrow? = d.arrows := by
    rw [List.filterMap_map]
    exact (List.filterMap_congr fun w hw => (h.arrows w hw).readArrow?_arrowLine).trans
      List.filterMap_some
  have hclosing : ["\x7d"].filterMap readArrow? = [] := by decide
  rw [bodyLines, List.filterMap_append, List.filterMap_append, hnodes, harrows, hclosing,
    List.nil_append, List.append_nil]

/-- The text of a diagram with a given name tells the diagram. -/
theorem eq_of_toDot_eq {d' : Diagram} (h : Presentable d) (h' : Presentable d')
    (hname : d.name = d'.name) (htext : d.toDot = d'.toDot) : d = d' := by
  rw [h.toDot_eq, h'.toDot_eq, hname, String.append_right_inj] at htext
  have hlines : bodyLines d = bodyLines d' := by
    rw [← h.linesOf_bodyLines, htext, h'.linesOf_bodyLines]
  have hnodes : d.nodes = d'.nodes := by
    rw [← h.filterMap_readNode?, hlines, h'.filterMap_readNode?]
  have harrows : d.arrows = d'.arrows := by
    rw [← h.filterMap_readArrow?, hlines, h'.filterMap_readArrow?]
  obtain ⟨name, nodes, arrows⟩ := d
  cases hname
  cases hnodes
  cases harrows
  rfl

end Presentable

end VisitGraph.Dot
