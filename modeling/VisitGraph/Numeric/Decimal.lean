import VisitGraph.Numeric.Binary64

/-! Decimal numbers: the shortest one that stands for a binary number, the one with a given count
of significant digits, and their written forms. -/

namespace VisitGraph.Numeric

/-- The number `coefficient * 10 ^ exponent`. -/
structure Decimal where
  coefficient : Nat
  exponent : Int
  deriving DecidableEq, Repr

namespace Decimal

/-! ### Decimal and binary numbers -/

/-- A ratio of natural numbers equal to the number. -/
def ratio (d : Decimal) : Nat × Nat :=
  (d.coefficient * Nat.pow 10 d.exponent.toNat, Nat.pow 10 (-d.exponent).toNat)

/-- The nearest binary number. -/
def toBinary64 (negative : Bool) (d : Decimal) : Binary64 :=
  Binary64.ofRatio negative d.ratio.1 d.ratio.2

/-- The decimal digits of a natural number. -/
def digits (n : Nat) : List Char :=
  Nat.toDigits 10 n

/-- The exponent of the leading digit of a magnitude in units: the greatest power of ten that is
at most the magnitude, for a magnitude that is not zero. -/
def leadingExponent (units : Nat) : Int :=
  if unitsPerOne ≤ units then (digits (units / unitsPerOne)).length - 1
  else -((digits ((unitsPerOne - 1) / units)).length : Int)

/-- The quotient of a magnitude in units by a power of ten, as a ratio. -/
def scaled (units : Nat) (exponent : Int) : Nat × Nat :=
  (units * Nat.pow 10 (-exponent).toNat, unitsPerOne * Nat.pow 10 exponent.toNat)

/-- The decimal number with `count` significant digits nearest to a magnitude in units. -/
def significant (count units : Nat) : Decimal :=
  let exponent := leadingExponent units - (count - 1 : Nat)
  let (n, d) := scaled units exponent
  ⟨roundDiv n d, exponent⟩

/-- Of the two neighbours of a magnitude among the decimal numbers with `count` digits, the nearer
one that rounds to its rank, if any; of two equally near ones the even one. -/
def neighbour? (rank count : Nat) : Option Decimal :=
  let units := Binary64.unitsOfRank rank
  let exponent := leadingExponent units - (count - 1 : Nat)
  let (n, d) := scaled units exponent
  let nearer := roundDiv n d
  let other := if nearer = n / d then nearer + 1 else n / d
  [nearer, other].map (⟨·, exponent⟩) |>.find? fun (candidate : Decimal) =>
    Binary64.nearestRank (candidate.ratio.1 * unitsPerOne) candidate.ratio.2 == rank

/-- The decimal number with the fewest digits that rounds to a rank, the nearest of those. Seventeen
digits are always enough. -/
def shortest (rank : Nat) : Decimal :=
  if Binary64.unitsOfRank rank = 0 then ⟨0, 0⟩
  else
    ((List.range 17).findSome? fun count => neighbour? rank (count + 1)).getD
      (significant 17 (Binary64.unitsOfRank rank))

/-! ### Written forms -/

/-- How a decimal number is written: which exponents of the leading digit keep the plain form, and
what a whole number ends with. -/
structure Style where
  least : Int
  bound : Int
  wholeEnd : String
  deriving Repr

/-- The form that can be read back: plain from a ten-thousandth on and below ten to the sixteenth,
and always with a fractional part. -/
def Style.exact : Style := ⟨-4, 16, ".0"⟩

/-- The form for readers: plain from a ten-thousandth on and below a million, and a whole number
without a point. -/
def Style.brief : Style := ⟨-4, 6, ""⟩

/-- The digits without the zeros at their end. -/
def stripZeros (ds : List Char) : List Char :=
  (ds.reverse.dropWhile (· == '0')).reverse

/-- A power of ten: the mark, the sign, and at least two digits. -/
def powerText (exponent : Int) : List Char :=
  let ds := digits exponent.natAbs
  'e' :: (if exponent < 0 then '-' else '+') :: (List.replicate (2 - ds.length) '0' ++ ds)

/-- Significant digits, the first of which stands for the given power of ten, in plain form. -/
def plainText (style : Style) (ds : List Char) (exponent : Int) : List Char :=
  if exponent < 0 then
    '0' :: '.' :: List.replicate ((-exponent).toNat - 1) '0' ++ ds
  else
    let whole := exponent.toNat + 1
    if ds.length ≤ whole then
      ds ++ List.replicate (whole - ds.length) '0' ++ style.wholeEnd.toList
    else ds.take whole ++ '.' :: ds.drop whole

/-- Significant digits with the point after the first and the power of ten behind them. -/
def powerForm (ds : List Char) (exponent : Int) : List Char :=
  match ds with
  | [] => []
  | [first] => first :: powerText exponent
  | first :: rest => first :: '.' :: rest ++ powerText exponent

/-- The written form of a number. -/
def text (style : Style) (d : Decimal) : List Char :=
  if d.coefficient = 0 then plainText style ['0'] 0
  else
    let ds := digits d.coefficient
    let exponent := d.exponent + ds.length - 1
    let ds := stripZeros ds
    if style.least ≤ exponent ∧ exponent < style.bound then plainText style ds exponent
    else powerForm ds exponent

end Decimal

/-! ### Written forms of binary numbers -/

namespace Binary64

/-- Puts a minus sign before the text of a negative number. -/
def signed (negative : Bool) (text : List Char) : String :=
  String.ofList (if negative then '-' :: text else text)

/-- The text of a number whose finite magnitudes are written by `write`. -/
def textWith (write : Nat → List Char) : Binary64 → String
  | nan => "nan"
  | infinity negative => signed negative "inf".toList
  | finite negative rank => signed negative (write rank)

/-- The shortest text that reads back as the number. -/
def text : Binary64 → String :=
  textWith fun rank => (Decimal.shortest rank).text .exact

/-- A magnitude with exactly three decimal places. -/
def thousandthsText (rank : Nat) : List Char :=
  let n := roundDiv (unitsOfRank rank * 1000) unitsPerOne
  let places := Decimal.digits (n % 1000)
  Decimal.digits (n / 1000) ++ '.' :: (List.replicate (3 - places.length) '0' ++ places)

/-- The number with exactly three decimal places. -/
def fixedText : Binary64 → String :=
  textWith thousandthsText

/-- The number to at most six significant digits. -/
def briefText : Binary64 → String :=
  textWith fun rank =>
    if unitsOfRank rank = 0 then Decimal.text .brief ⟨0, 0⟩
    else (Decimal.significant 6 (unitsOfRank rank)).text .brief

/-- The number nearest to the exact value rounded to hundredths. -/
def roundHundredths : Binary64 → Binary64
  | nan => nan
  | infinity negative => infinity negative
  | finite negative rank =>
    ofRatio negative (roundDiv (unitsOfRank rank * 100) unitsPerOne) 100

/-- An integral number with all its digits and no point, any other with its shortest text. -/
def plainText (x : Binary64) : String :=
  match x.toInt? with
  | some n => toString n
  | none => x.text

end Binary64

end VisitGraph.Numeric
