import VisitGraph.Fault
import VisitGraph.Numeric.Decimal

/-! Numbers that are integers of any size or binary floating point numbers. Arithmetic on two
integers is exact; where one operand is floating point, the other is converted, which fails for an
integer beyond the floating point range. Comparison never converts. -/

namespace VisitGraph.Numeric

/-- An integer or a floating point number. -/
inductive Quantity where
  | int (n : Int)
  | real (x : Binary64)
  deriving DecidableEq, Repr

/-- The nearest floating point number, unless that is infinite. -/
def Binary64.ofInt? (n : Int) : Except Fault Binary64 :=
  match ofInt n with
  | infinity _ => .error .beyondBinary64
  | x => .ok x

namespace Quantity

/-- The number in floating point. -/
def toReal : Quantity → Except Fault Binary64
  | int n => Binary64.ofInt? n
  | real x => .ok x

/-- An operation given by its exact form on integers and its form on floating point numbers. -/
def combine (exact : Int → Int → Int) (rounded : Binary64 → Binary64 → Binary64) :
    Quantity → Quantity → Except Fault Quantity
  | int m, int n => .ok (int (exact m n))
  | a, b => do return real (rounded (← a.toReal) (← b.toReal))

/-- The sum. -/
def add : Quantity → Quantity → Except Fault Quantity :=
  combine (· + ·) Binary64.add

/-- The difference. -/
def sub : Quantity → Quantity → Except Fault Quantity :=
  combine (· - ·) Binary64.sub

/-- The product. -/
def mul : Quantity → Quantity → Except Fault Quantity :=
  combine (· * ·) Binary64.mul

/-- The place of a number in the order of all numbers: below, among or above the finite values,
and the exact value in units. -/
def place? : Quantity → Option (Int × Int)
  | int n => some (0, n * unitsPerOne)
  | real .nan => none
  | real (.infinity negative) => some (if negative then -1 else 1, 0)
  | real (.finite negative rank) => some (0, Binary64.signedUnits negative rank)

/-- Whether the first number is exactly smaller than the second. -/
def lt (a b : Quantity) : Bool :=
  match a.place?, b.place? with
  | some (i, x), some (j, y) => i < j || (i == j && x < y)
  | _, _ => false

/-- The text with exactly three decimal places. -/
def fixedText (q : Quantity) : Except Fault String := do
  return (← q.toReal).fixedText

/-- The text with all digits: an integral number without a point. -/
def plainText : Quantity → Except Fault String
  | int n => do
    let _ ← Binary64.ofInt? n
    return toString n
  | real x => .ok x.plainText

/-- The text of a share: rounded to hundredths, without trailing zeros. -/
def shareText : Quantity → Except Fault String
  | int n => do return (← Binary64.ofInt? n).briefText
  | real x => .ok x.roundHundredths.briefText

end VisitGraph.Numeric.Quantity
