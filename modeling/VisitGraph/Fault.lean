import VisitGraph.Text.Quoted
import VisitGraph.Text.Utf8

/-! What can go wrong in reading and analysing, and how it is told. -/

namespace VisitGraph

/-- A numeric field of a function listing. -/
inductive Field where
  | start
  | length
  deriving DecidableEq, Repr

/-- The cause of a failure. -/
inductive Fault where
  | emptySeparator
  | malformedLine (number : Nat) (separator line : String)
  | invalidField (number : Nat) (field : Field) (text : String)
  | invalidAddress (number : Nat) (text : String)
  | negativeAddress (number : Nat) (text : String)
  | negativeStart (name : String)
  | negativeLength (name : String)
  | tooFewNodes (count : Nat)
  | negativeRadicand
  | beyondBinary64
  | noSuchIndex
  | notUtf8 (defect : Text.Utf8.Defect)
  deriving DecidableEq, Repr

/-- The text between quotes. -/
def inQuotes (text : String) : String :=
  String.ofList (Text.quoted text.toList)

/-- How a field is called in a message. -/
def Field.name : Field → String
  | start => "start"
  | length => "length"

namespace Text.Utf8

/-- How a reason is told. -/
def Reason.message : Reason → String
  | start => "invalid start byte"
  | continuation => "invalid continuation byte"
  | unfinished => "unexpected end of data"

/-- Tells a single byte by its value and a longer piece by its first and last position. -/
def Defect.message (d : Defect) : String :=
  let piece :=
    if d.length = 1 then
      s!"byte 0x{String.ofList (paddedHex 2 d.byte.toNat)} in position {d.position}"
    else s!"bytes in position {d.position}-{d.position + d.length - 1}"
  s!"'utf-8' codec can't decode {piece}: {d.reason.message}"

end Text.Utf8

/-- The text that tells the failure. -/
def Fault.message : Fault → String
  | emptySeparator => "function separator must not be empty"
  | malformedLine number separator line =>
    s!"line {number}: expected <name>{separator}<start>{separator}<length>, got {inQuotes line}"
  | invalidField number field text =>
    s!"line {number}: invalid hexadecimal {field.name} {inQuotes text}"
  | invalidAddress number text =>
    s!"trace line {number}: invalid hexadecimal address {inQuotes text}"
  | negativeAddress number text => s!"trace line {number}: negative address {inQuotes text}"
  | negativeStart name => s!"function {inQuotes name} has a negative start address"
  | negativeLength name => s!"function {inQuotes name} has a negative length"
  | tooFewNodes count => s!"dispersion needs at least two distinct nodes, got {count}"
  | negativeRadicand => "math domain error"
  | beyondBinary64 => "int too large to convert to float"
  | noSuchIndex => "list index out of range"
  | notUtf8 defect => defect.message

end VisitGraph
