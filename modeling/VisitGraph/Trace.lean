import VisitGraph.Fault
import VisitGraph.Text.Hexadecimal
import VisitGraph.Text.Lines

/-! Reading traces: one hexadecimal address a line. -/

namespace VisitGraph.Trace

/-- Reads one line. -/
def readLine (number : Nat) (line : List Char) : Except Fault Int :=
  match Text.Hexadecimal.read? line with
  | none => .error (.invalidAddress number (String.ofList line))
  | some address =>
    if address < 0 then .error (.negativeAddress number (String.ofList line)) else .ok address

/-- Reads a trace, stopping at the first bad line. -/
def read (text : String) : Except Fault (List Int) :=
  (Text.filledLines text.toList).mapM fun (number, line) => readLine number line

end VisitGraph.Trace
