import VisitGraph.Numeric.Quantity

/-! Mean and spread of a list of values. The formulas hold in every arithmetic; results are computed
in floating point. -/

namespace VisitGraph.Spread

open Numeric

section

variable {α : Type} [NatCast α] [Add α] [Sub α] [Mul α] [Div α]

/-- The sum, from left to right. -/
def total (xs : List α) : α :=
  xs.foldl (· + ·) (Nat.cast 0)

/-- The sum over the number of values. -/
def mean (xs : List α) : α :=
  total xs / Nat.cast xs.length

/-- The square of the spread: the sum of squares over one less than the number of values, minus the
square of the mean. -/
def radicand (xs : List α) : α :=
  total (xs.map fun x => x * x) / Nat.cast (xs.length - 1) - mean xs * mean xs

end

/-- The mean and the spread of at least two values in floating point. -/
def meanAndSpread (values : List Quantity) : Except Fault (Binary64 × Binary64) :=
  if values.length < 2 then .error (.tooFewNodes values.length)
  else do
    let xs ← values.mapM Quantity.toReal
    if (radicand xs).isNegative then throw .negativeRadicand
    return (mean xs, (radicand xs).sqrt)

end VisitGraph.Spread
