import VisitGraph.Numeric.Decimal
import VisitGraph.Text.Sign

/-! Reading decimal numerals. -/

namespace VisitGraph.Numeric

/-- The number that a digit sequence stands for. -/
def naturalOfDigits (ds : List Char) : Nat :=
  ds.foldl (fun n c => 10 * n + (c.toNat - '0'.toNat)) 0

/-- Reads a power of ten: a sign and at least one digit. -/
def readPower? (text : List Char) : Option Int :=
  let (negative, ds) := Text.takeSign text
  if ds.isEmpty || !ds.all Char.isDigit then none
  else some (if negative then -(naturalOfDigits ds : Int) else naturalOfDigits ds)

/-- Reads a number without a sign: digits, of which some may follow a point, and a power of ten. -/
def Decimal.read? (text : List Char) : Option Decimal := do
  let whole := text.takeWhile Char.isDigit
  let rest := text.dropWhile Char.isDigit
  let fraction := if rest.head? = some '.' then rest.tail.takeWhile Char.isDigit else []
  let rest := if rest.head? = some '.' then rest.tail.dropWhile Char.isDigit else rest
  if whole.isEmpty && fraction.isEmpty then none
  else
    let power ← match rest with
      | [] => some 0
      | c :: rest => if c = 'e' ∨ c = 'E' then readPower? rest else none
    return ⟨naturalOfDigits (whole ++ fraction), power - fraction.length⟩

/-- The same number up to rounding, with an exponent of moderate size: beyond these bounds every
coefficient is rounded to an infinity or to zero. -/
def Decimal.moderate (d : Decimal) : Decimal :=
  ⟨d.coefficient, max (-400 - (digits d.coefficient).length) (min 400 d.exponent)⟩

/-- Reads a floating point number, rounding it once. -/
def Binary64.read? (text : List Char) : Option Binary64 :=
  let (negative, rest) := Text.takeSign text
  if rest = "inf".toList then some (.infinity negative)
  else if rest = "nan".toList then some .nan
  else (Decimal.read? rest).map fun d => d.moderate.toBinary64 negative

end VisitGraph.Numeric
