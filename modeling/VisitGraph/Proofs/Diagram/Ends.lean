import VisitGraph.Proofs.Diagram.Statements

/-! # The ends of arrows

A node is declared with its id as one identifier. An end of an arrow is taken apart at colons first:
what stands before the first one names a node, and the rest a part of that node. So an arrow joins
the nodes with the ids of its ends exactly if there is no colon in them. -/

namespace VisitGraph.Dot

/-- The node that an end of an arrow names: its text up to the first colon. -/
def namedNode (text : String) : String :=
  String.ofList (splitColon text.toList).1

/-- What is written behind the node at an end of an arrow: nothing, or a part of the node. -/
def partText (text : String) : String :=
  let rest := (splitColon text.toList).2
  let (part, compass) := splitColon rest
  if rest.isEmpty then ""
  else
    ":" ++ identifier (String.ofList part) ++
      if compass.isEmpty then "" else ":" ++ String.ofList compass

theorem arrowEnd_eq_append (text : String) :
    arrowEnd text = identifier (namedNode text) ++ partText text := by
  simp only [arrowEnd, partText, namedNode]
  split
  · simp
  · split <;> simp [toString, String.append_assoc]

/-! ## Texts with a colon -/

theorem eq_of_splitColon {text : List Char} (h : ':' ∈ text) :
    text = (splitColon text).1 ++ ':' :: (splitColon text).2 := by
  have hdrop : text.dropWhile (· != ':') = ':' :: (text.dropWhile (· != ':')).tail := by
    cases hrest : text.dropWhile (· != ':') with
    | nil => simpa using List.dropWhile_eq_nil_iff.mp hrest ':' h
    | cons c rest =>
        have hc := List.head?_dropWhile_not (· != ':') text
        simp only [hrest, List.head?_cons] at hc
        have hcolon : c = ':' := by simpa using hc
        rw [hcolon, List.tail_cons]
  rw [splitColon, ← hdrop, List.takeWhile_append_dropWhile]

/-- A text that needs no quotes does not begin with one. -/
theorem head?_ne_quote_of_isBare {text : List Char} (h : isBare text = true) :
    text.head? ≠ some '"' := by
  intro hquote
  obtain ⟨rest, rfl⟩ := List.head?_eq_some_iff.mp hquote
  have hbody : ∃ body, dropFinalFeed ('"' :: rest) = '"' :: body := by
    rw [dropFinalFeed]
    split
    · cases rest with
      | nil => contradiction
      | cons c rest => exact ⟨_, List.dropLast_cons_cons⟩
    · exact ⟨rest, rfl⟩
  obtain ⟨body, hbody⟩ := hbody
  have hmarkup : isMarkup ('"' :: body) = false := rfl
  have hname : isName ('"' :: body) = false := rfl
  have hnumeral : isNumeral ('"' :: body) = false := rfl
  simp [isBare, hbody, hmarkup, hname, hnumeral] at h

theorem head?_identifier_eq_quote_iff {text : String} :
    (identifier text).toList.head? = some '"' ↔ isBare text.toList = false := by
  cases hbare : isBare text.toList with
  | true =>
      rw [identifier, if_pos hbare]
      simpa using head?_ne_quote_of_isBare hbare
  | false => simp [identifier, hbare]

/-- Texts with the same identifier are both quoted, or neither is. -/
theorem isBare_eq_of_identifier_eq {text text' : String} (h : identifier text = identifier text') :
    isBare text.toList = isBare text'.toList := by
  have hiff : isBare text.toList = false ↔ isBare text'.toList = false := by
    rw [← head?_identifier_eq_quote_iff, h, head?_identifier_eq_quote_iff]
  rwa [Bool.eq_iff_iff, ← not_iff_not, Bool.not_eq_true, Bool.not_eq_true]

/-- Behind a colon, escaping begins afresh. -/
theorem escapeQuotes_append_colon (odd : Bool) (front rest : List Char) :
    escapeQuotes odd (front ++ ':' :: rest) =
      escapeQuotes odd front ++ ':' :: escapeQuotes false rest := by
  induction front generalizing odd with
  | nil => simp [escapeQuotes]
  | cons c front ih =>
      simp only [List.cons_append, escapeQuotes, ih]
      split
      · rfl
      · split <;> rfl

/-- A text with a colon is never read as the node that was declared with it. -/
theorem identifier_namedNode_eq_iff {text : String} :
    identifier (namedNode text) = identifier text ↔ ':' ∉ text.toList := by
  constructor
  · intro h hcolon
    have hsplit := eq_of_splitColon hcolon
    have hsame := isBare_eq_of_identifier_eq h
    have hlists := congrArg String.toList h
    rw [identifier, identifier, hsame, namedNode, String.toList_ofList] at hlists
    -- Quoted or not, the identifier of the whole text is longer by what comes with the colon.
    cases hbare : isBare text.toList with
    | true =>
        rw [if_pos hbare, if_pos hbare, String.toList_ofList] at hlists
        have hlonger := hlists.trans hsplit
        exact List.cons_ne_nil _ _ (List.self_eq_append_right.mp hlonger)
    | false =>
        rw [hbare, if_neg Bool.false_ne_true, if_neg Bool.false_ne_true, String.toList_ofList,
          String.toList_ofList] at hlists
        have hescaped := List.append_cancel_right (List.cons.inj hlists).2
        have hbehind := escapeQuotes_append_colon false (splitColon text.toList).1
          (splitColon text.toList).2
        rw [← hsplit] at hbehind
        have hlonger := hescaped.trans hbehind
        exact List.cons_ne_nil _ _ (List.self_eq_append_right.mp hlonger)
  · intro h
    rw [namedNode, splitColon_of_notMem h, String.ofList_toList]

/-- An end of an arrow is the node declared with the same text, and not a part of it, exactly if
there is no colon in the text. -/
theorem arrowEnd_whole_iff {text : String} :
    (arrowEnd text = identifier text ∧ partText text = "") ↔ ':' ∉ text.toList := by
  constructor
  · rintro ⟨hend, hpart⟩
    rw [arrowEnd_eq_append, hpart, String.append_empty] at hend
    exact identifier_namedNode_eq_iff.mp hend
  · intro h
    refine ⟨arrowEnd_eq h, ?_⟩
    rw [partText, splitColon_of_notMem h]
    rfl

/-! ## Arrows between declared nodes -/

/-- The text has a statement about the subject. -/
def HasStatement (text subject : String) : Prop :=
  ∃ front settings rest, text = front ++ statement subject settings ++ rest

/-- The ends of the arrow are written as the nodes are declared, and neither is a part of one. -/
structure JoinsDeclared (n m : Node) (w : Arrow) : Prop where
  source : arrowEnd w.source = identifier n.id
  target : arrowEnd w.target = identifier m.id
  whole : partText w.source = "" ∧ partText w.target = ""

theorem exists_join_eq_of_mem {text : String} {texts : List String} (h : text ∈ texts) :
    ∃ front rest, String.join texts = front ++ text ++ rest := by
  obtain ⟨front, rest, rfl⟩ := List.append_of_mem h
  refine ⟨String.join front, String.join rest, ?_⟩
  rw [String.join_append, String.join_cons, String.append_assoc]

theorem hasStatement_of_mem_nodes {d : Diagram} {n : Node} (h : n ∈ d.nodes) :
    HasStatement d.toDot (identifier n.id) := by
  obtain ⟨front, rest, hjoin⟩ := exists_join_eq_of_mem (List.mem_map_of_mem (f := nodeStatement) h)
  have htext : d.toDot = header d.name ++ front ++ nodeStatement n ++
      (rest ++ String.join (d.arrows.map arrowStatement) ++ "\x7d\n") := by
    rw [Diagram.toDot, hjoin]
    simp only [String.append_assoc]
  exact ⟨_, _, _, htext⟩

theorem hasStatement_of_mem_arrows {d : Diagram} {w : Arrow} (h : w ∈ d.arrows) :
    HasStatement d.toDot s!"{arrowEnd w.source} -> {arrowEnd w.target}" := by
  obtain ⟨front, rest, hjoin⟩ := exists_join_eq_of_mem (List.mem_map_of_mem (f := arrowStatement) h)
  have htext : d.toDot = header d.name ++ String.join (d.nodes.map nodeStatement) ++ front ++
      arrowStatement w ++ (rest ++ "\x7d\n") := by
    rw [Diagram.toDot, hjoin]
    simp only [String.append_assoc]
  exact ⟨_, _, _, htext⟩

theorem joinsDeclared_iff {n m : Node} {w : Arrow} (hsource : n.id = w.source)
    (htarget : m.id = w.target) :
    JoinsDeclared n m w ↔ ':' ∉ w.source.toList ∧ ':' ∉ w.target.toList := by
  constructor
  · rintro ⟨hs, ht, hwhole, hwhole'⟩
    rw [hsource] at hs
    rw [htarget] at ht
    exact ⟨arrowEnd_whole_iff.mp ⟨hs, hwhole⟩, arrowEnd_whole_iff.mp ⟨ht, hwhole'⟩⟩
  · rintro ⟨hs, ht⟩
    obtain ⟨hends, hwhole⟩ := arrowEnd_whole_iff.mpr hs
    obtain ⟨hendt, hwhole'⟩ := arrowEnd_whole_iff.mpr ht
    exact ⟨by rw [hends, hsource], by rw [hendt, htarget], hwhole, hwhole'⟩

/-- What the text of a diagram has of an arrow and of the two nodes with the ids of its ends. An end
is read as the node before the first colon and the part behind it. -/
structure DrawnBetween (d : Diagram) (n m : Node) (w : Arrow) : Prop where
  declared : HasStatement d.toDot (identifier n.id) ∧ HasStatement d.toDot (identifier m.id)
  drawn : HasStatement d.toDot s!"{arrowEnd w.source} -> {arrowEnd w.target}"
  source : arrowEnd w.source = identifier (namedNode w.source) ++ partText w.source
  target : arrowEnd w.target = identifier (namedNode w.target) ++ partText w.target
  joins_iff : JoinsDeclared n m w ↔ ':' ∉ w.source.toList ∧ ':' ∉ w.target.toList

/-- An arrow joins the nodes that are declared with the ids of its ends exactly if there is no colon
in them. Any other characters come out the same in both places. -/
theorem toDot_drawnBetween {d : Diagram} {w : Arrow} {n m : Node} (hw : w ∈ d.arrows)
    (hn : n ∈ d.nodes) (hm : m ∈ d.nodes) (hsource : n.id = w.source) (htarget : m.id = w.target) :
    DrawnBetween d n m w := by
  constructor
  · exact ⟨hasStatement_of_mem_nodes hn, hasStatement_of_mem_nodes hm⟩
  · exact hasStatement_of_mem_arrows hw
  · exact arrowEnd_eq_append w.source
  · exact arrowEnd_eq_append w.target
  · exact joinsDeclared_iff hsource htarget

theorem toDot_drawnBetween_odd_ids :
    let n : Node := ⟨"say \"no\"\n", "a", "black", false⟩
    let m : Node := ⟨"Node", "b", "black", false⟩
    let w : Arrow := ⟨"say \"no\"\n", "Node", "1", none⟩
    DrawnBetween ⟨"g", [n, m], [w]⟩ n m w ∧ JoinsDeclared n m w := by
  intro n m w
  have h : DrawnBetween ⟨"g", [n, m], [w]⟩ n m w :=
    toDot_drawnBetween (by decide) (by decide) (by decide) rfl rfl
  exact ⟨h, h.joins_iff.mpr (by decide)⟩

/-- A node with a colon in its id is declared, but the arrow from it leaves another node, which is
not. -/
theorem toDot_colon :
    let n : Node := ⟨"a:b", "x", "black", false⟩
    let m : Node := ⟨"c", "y", "black", false⟩
    let w : Arrow := ⟨"a:b", "c", "1", none⟩
    let d : Diagram := ⟨"g", [n, m], [w]⟩
    d.toDot = "digraph g \x7b\n" ++
        "\t\"a:b\" [label=x fontcolor=black height=0.5 shape=ellipse]\n" ++
        "\tc [label=y fontcolor=black height=0.5 shape=ellipse]\n" ++
        "\ta:b -> c [label=1]\n\x7d\n" ∧
      namedNode w.source = "a" ∧ partText w.source = ":b" ∧
      identifier (namedNode w.source) ∉ d.nodes.map (identifier ·.id) ∧
      ¬ ∀ w ∈ d.arrows, ∀ n ∈ d.nodes, ∀ m ∈ d.nodes, n.id = w.source → m.id = w.target →
        JoinsDeclared n m w := by
  intro n m w d
  refine ⟨by decide +kernel, by decide, by decide, by decide, ?_⟩
  intro h
  have hjoins : JoinsDeclared n m w :=
    h w (by decide) n (by decide) m (by decide) rfl rfl
  exact absurd hjoins.source (by decide)

end VisitGraph.Dot
