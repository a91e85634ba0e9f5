import VisitGraph.Diagram

/-! Diagrams in the graph description language DOT. Which texts are put between quotes, what is
escaped in them, and the order of the attributes follow release 0.21 of the graphviz package, which
is outside this program. -/

namespace VisitGraph.Dot

/-! ### Identifiers -/

/-- The text without one line feed at its end. -/
def dropFinalFeed (text : List Char) : List Char :=
  if text.getLast? = some '\n' then text.dropLast else text

/-- Whether the text stands between angle brackets. -/
def isMarkup (text : List Char) : Bool :=
  text.head? == some '<' && text.tail.getLast? == some '>'

/-- Whether the text is a name: letters, digits and underscores, no digit first. -/
def isName : List Char → Bool
  | [] => false
  | c :: rest => (c.isAlpha || c == '_') && rest.all fun c => c.isAlphanum || c == '_'

/-- Whether the text is a numeral: digits with at most one point among them, after an optional
minus. -/
def isNumeral (text : List Char) : Bool :=
  let text := if text.head? = some '-' then text.tail else text
  let rest := text.dropWhile Char.isDigit
  if rest.isEmpty then !text.isEmpty
  else
    rest.head? == some '.' && rest.tail.all Char.isDigit &&
      (text.head? != some '.' || !rest.tail.isEmpty)

/-- The words with a meaning of their own, in any case. -/
def keywords : List String := ["node", "edge", "graph", "digraph", "subgraph", "strict"]

/-- Whether the text can stand without quotes. A line feed at its end is overlooked, but makes a
keyword an ordinary name. -/
def isBare (text : List Char) : Bool :=
  let body := dropFinalFeed text
  isMarkup body ||
    ((isName body || isNumeral body) && !keywords.contains (String.ofList (text.map Char.toLower)))

/-- Escapes each double quote that does not follow an odd number of backslashes. The flag tells
whether the run of backslashes just read is odd. -/
def escapeQuotes : Bool → List Char → List Char
  | _, [] => []
  | odd, c :: rest =>
    if c = '\\' then c :: escapeQuotes (!odd) rest
    else if c = '"' ∧ odd = false then '\\' :: c :: escapeQuotes false rest
    else c :: escapeQuotes false rest

/-- An identifier, quoted where it has to be. -/
def identifier (text : String) : String :=
  if isBare text.toList then text
  else String.ofList ('"' :: escapeQuotes false text.toList ++ ['"'])

/-- The text before and after the first colon. -/
def splitColon (text : List Char) : List Char × List Char :=
  (text.takeWhile (· != ':'), (text.dropWhile (· != ':')).tail)

/-- An end of an arrow: a node, a part of it after a colon, and a compass point after another. -/
def arrowEnd (text : String) : String :=
  let (node, rest) := splitColon text.toList
  let (part, compass) := splitColon rest
  let ofChars (cs : List Char) : String := identifier (String.ofList cs)
  if rest.isEmpty then ofChars node
  else if compass.isEmpty then s!"{ofChars node}:{ofChars part}"
  else s!"{ofChars node}:{ofChars part}:{String.ofList compass}"

/-! ### Statements -/

/-- The height of every node. -/
def nodeHeight : String := "0.5"

/-- The shape of every node. -/
def nodeShape : String := "ellipse"

/-- A setting with its value. -/
def setting (name value : String) : String :=
  s!"{name}={identifier value}"

/-- A statement with its settings, on a line. -/
def statement (subject : String) (settings : List String) : String :=
  let body := " ".intercalate settings
  s!"\t{subject} [{body}]\n"

/-- The statement that declares a node. -/
def nodeStatement (n : Node) : String :=
  statement (identifier n.id) <|
    [setting "label" n.label, setting "fontcolor" n.color, setting "height" nodeHeight,
      setting "shape" nodeShape] ++ if n.bold then [setting "style" "bold"] else []

/-- The statement that draws an arrow. -/
def arrowStatement (a : Arrow) : String :=
  statement s!"{arrowEnd a.source} -> {arrowEnd a.target}" <|
    setting "label" a.label :: (a.color?.map (setting "color")).toList

/-- The line that opens a graph. An empty name is left out. -/
def header (name : String) : String :=
  if name.isEmpty then "digraph \x7b\n" else s!"digraph {identifier name} \x7b\n"

end Dot

/-- The text of the diagram: nodes first, then arrows. -/
def Diagram.toDot (d : Diagram) : String :=
  Dot.header d.name ++ String.join (d.nodes.map Dot.nodeStatement) ++
    String.join (d.arrows.map Dot.arrowStatement) ++ "\x7d\n"

end VisitGraph
