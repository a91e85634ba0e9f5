/-! Rounding exact quotients and roots of natural numbers. -/

namespace VisitGraph.Numeric

/-- The natural number nearest to `n / d`; of two that are equally near, the even one. -/
def roundDiv (n d : Nat) : Nat :=
  let q := n / d
  let r := n % d
  if 2 * r < d then q
  else if d < 2 * r then q + 1
  else q + q % 2

/-- The root, rounded down, of a number with at most so many digits in base four. Each digit of the
number gives one binary digit of the root. -/
def floorSqrtOfDigits : Nat → Nat → Nat
  | 0, _ => 0
  | digits + 1, n =>
    let r := 2 * floorSqrtOfDigits digits (n / 4)
    if (r + 1) * (r + 1) ≤ n then r + 1 else r

/-- The largest natural number whose square is at most `n`. -/
def floorSqrt (n : Nat) : Nat :=
  floorSqrtOfDigits (n.log2 / 2 + 1) n

end VisitGraph.Numeric
