import VisitGraph.Text.Digit
import VisitGraph.Text.Sign

/-! Hexadecimal numerals: an optional sign, an optional base mark, and digits with single
underscores between them. -/

namespace VisitGraph.Text.Hexadecimal

/-- Reads further digits, each after at most one underscore, onto a value. -/
def digits? (value : Nat) : List Char → Option Nat
  | [] => some value
  | '_' :: c :: rest => do digits? (16 * value + (← hexDigit? c)) rest
  | c :: rest => do digits? (16 * value + (← hexDigit? c)) rest

/-- Reads at least one digit. -/
def natural? : List Char → Option Nat
  | [] => none
  | c :: rest => do digits? (← hexDigit? c) rest

/-- Takes off the base mark, a zero of any script and an `x`, and one underscore after it. -/
def dropBaseMark : List Char → List Char
  | c :: x :: rest =>
    if decimalDigit? c = some 0 ∧ (x = 'x' ∨ x = 'X') then
      if rest.head? = some '_' then rest.tail else rest
    else c :: x :: rest
  | text => text

/-- Reads a numeral. -/
def read? (text : List Char) : Option Int := do
  let (negative, rest) := takeSign text
  let n ← natural? (dropBaseMark rest)
  return if negative then -(n : Int) else n

/-- Writes a number in lower case digits without a base mark. -/
def write (n : Int) : List Char :=
  if n < 0 then '-' :: Nat.toDigits 16 n.natAbs else Nat.toDigits 16 n.natAbs

end VisitGraph.Text.Hexadecimal
