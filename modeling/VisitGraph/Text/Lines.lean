import VisitGraph.Text.Blank

/-! Cutting text into lines. A return directly before a line feed belongs to that line feed;
after joining such pairs, every remaining break stands alone. -/

namespace VisitGraph.Text

/-- The characters that end a line. -/
def isBreak (c : Char) : Bool :=
  let n := c.toNat
  (0x0a ≤ n && n ≤ 0x0d) || (0x1c ≤ n && n ≤ 0x1e) || n == 0x85 || n == 0x2028 || n == 0x2029

/-- Leaves out each return that stands directly before a line feed. -/
def joinReturns (text : List Char) : List Char :=
  ((text.zip (text.tail.map some ++ [none])).filter
    fun (c, next) => !(c == '\r' && next == some '\n')).map Prod.fst

/-- Every return, alone or before a line feed, becomes one line feed. -/
def unifyNewlines (text : List Char) : List Char :=
  (joinReturns text).map fun c => if c == '\r' then '\n' else c

/-- Puts a character in front of the first line. -/
def extendFirst (c : Char) : List (List Char) → List (List Char)
  | [] => [[c]]
  | line :: rest => (c :: line) :: rest

/-- The lines of the text without their breaks. A final break opens no further line. -/
def lines (text : List Char) : List (List Char) :=
  (joinReturns text).foldr (fun c rest => if isBreak c then [] :: rest else extendFirst c rest) []

/-- The lines that hold more than blanks, trimmed, each with its number counted from one over
all lines. -/
def filledLines (text : List Char) : List (Nat × List Char) :=
  ((lines text).zipIdx 1).filterMap fun (line, number) =>
    let content := trim line
    if content.isEmpty then none else some (number, content)

end VisitGraph.Text
