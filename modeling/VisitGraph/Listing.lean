import VisitGraph.Layout
import VisitGraph.Text.Fields
import VisitGraph.Text.Hexadecimal
import VisitGraph.Text.Lines

/-! Reading function listings: one function a line, its name, start and length with a separator
between them, the numbers hexadecimal. -/

namespace VisitGraph.Listing

/-- The separator used when none is chosen. -/
def defaultSeparator : String := "_SEPERATOR_"

/-- Reads a numeric field. -/
def readField (number : Nat) (field : Field) (text : List Char) : Except Fault Int :=
  match Text.Hexadecimal.read? text with
  | some n => .ok n
  | none => .error (.invalidField number field (String.ofList text))

/-- Reads one line. -/
def readLine (separator : String) (number : Nat) (line : List Char) : Except Fault Entry :=
  match Text.fields? separator.toList line with
  | none => .error (.malformedLine number separator (String.ofList line))
  | some (name, start, length) => do
    let start ← readField number .start start
    let length ← readField number .length length
    return ⟨String.ofList name, start, length⟩

/-- Reads a listing, stopping at the first bad line. -/
def read (separator text : String) : Except Fault (List Entry) :=
  if separator.isEmpty then .error .emptySeparator
  else (Text.filledLines text.toList).mapM fun (number, line) => readLine separator number line

/-- Reads a listing into a layout with ids from one on. -/
def readLayout (separator text : String) : Except Fault Layout := do
  Layout.load 1 (← read separator text)

end VisitGraph.Listing
