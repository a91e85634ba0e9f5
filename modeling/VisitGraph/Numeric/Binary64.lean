import VisitGraph.Numeric.Rounding

/-! Binary floating point numbers of 64 bits, modelled by exact integers. The finite magnitudes in
increasing order are numbered by their ranks; all magnitudes are whole multiples of the smallest
one, the unit. Every operation computes the exact result in units and rounds it once, to the
nearest magnitude, a tie going to the even rank. -/

namespace VisitGraph.Numeric

/-- The number of magnitudes that share one spacing. -/
def binadeSize : Nat := Nat.pow 2 52

/-- The number of finite magnitudes. -/
def rankCount : Nat := 2047 * binadeSize

/-- The number of units in one. -/
def unitsPerOne : Nat := Nat.pow 2 1074

/-- A binary floating point number: not a number, an infinity, or a sign and the rank of a finite
magnitude. -/
inductive Binary64 where
  | nan
  | infinity (negative : Bool)
  | finite (negative : Bool) (rank : Fin rankCount)
  deriving DecidableEq, Repr

namespace Binary64

/-! ### Ranks and units -/

/-- The magnitude of a rank in units. The ranks fall into binades; from the second one on, the
spacing doubles with each. -/
def unitsOfRank (rank : Nat) : Nat :=
  let shift := rank / binadeSize - 1
  (rank - shift * binadeSize) * Nat.pow 2 shift

/-- The rank nearest to `n / d` units, were there no largest magnitude. -/
def nearestRank (n d : Nat) : Nat :=
  let shift := (n / d).log2 - 52
  shift * binadeSize + roundDiv n (d * Nat.pow 2 shift)

/-- The number nearest to `n / d` units. -/
def ofUnits (negative : Bool) (n d : Nat) : Binary64 :=
  let rank := nearestRank n d
  if h : rank < rankCount then .finite negative ⟨rank, h⟩ else .infinity negative

/-- The number nearest to `n / d`. -/
def ofRatio (negative : Bool) (n d : Nat) : Binary64 :=
  ofUnits negative (n * unitsPerOne) d

/-- The number nearest to an integer, or an infinity. -/
def ofInt (n : Int) : Binary64 :=
  ofRatio (n < 0) n.natAbs 1

/-- Zero, with a sign. -/
def zero (negative : Bool) : Binary64 :=
  ofUnits negative 0 1

/-- A signed magnitude in units. -/
def signedUnits (negative : Bool) (rank : Nat) : Int :=
  if negative then -(unitsOfRank rank : Int) else unitsOfRank rank

/-! ### Arithmetic -/

/-- The number with the other sign. -/
def neg : Binary64 → Binary64
  | nan => nan
  | infinity negative => infinity !negative
  | finite negative rank => finite (!negative) rank

/-- The sum. Opposite infinities have none; an exact zero is negative only if both terms are. -/
def add : Binary64 → Binary64 → Binary64
  | nan, _ | _, nan => nan
  | infinity a, infinity b => if a = b then infinity a else nan
  | infinity a, finite .. => infinity a
  | finite .., infinity b => infinity b
  | finite a i, finite b j =>
    let sum := signedUnits a i + signedUnits b j
    if sum = 0 then zero (a && b) else ofUnits (sum < 0) sum.natAbs 1

/-- The difference. -/
def sub (x y : Binary64) : Binary64 :=
  add x (neg y)

/-- The product. Zero times an infinity has none. -/
def mul : Binary64 → Binary64 → Binary64
  | nan, _ | _, nan => nan
  | infinity a, infinity b => infinity (a != b)
  | infinity a, finite b j => if unitsOfRank j = 0 then nan else infinity (a != b)
  | finite a i, infinity b => if unitsOfRank i = 0 then nan else infinity (a != b)
  | finite a i, finite b j => ofUnits (a != b) (unitsOfRank i * unitsOfRank j) unitsPerOne

/-- The quotient. Zero by zero and infinity by infinity have none; anything else by zero is
infinite. -/
def div : Binary64 → Binary64 → Binary64
  | nan, _ | _, nan => nan
  | infinity _, infinity _ => nan
  | infinity a, finite b _ => infinity (a != b)
  | finite a _, infinity b => zero (a != b)
  | finite a i, finite b j =>
    if unitsOfRank j = 0 then
      if unitsOfRank i = 0 then nan else infinity (a != b)
    else ofUnits (a != b) (unitsOfRank i * unitsPerOne) (unitsOfRank j)

/-- The square root. A zero is its own root, other negative numbers have none. The root of the
units is cut to an integer, and half a unit stands for what was cut off. -/
def sqrt : Binary64 → Binary64
  | nan => nan
  | infinity negative => if negative then nan else infinity false
  | finite negative rank =>
    if unitsOfRank rank = 0 then finite negative rank
    else if negative then nan
    else
      let square := unitsOfRank rank * unitsPerOne
      let root := floorSqrt square
      ofUnits false (2 * root + if root * root = square then 0 else 1) 2

instance : NatCast Binary64 := ⟨fun n => ofRatio false n 1⟩

instance : Add Binary64 := ⟨add⟩

instance : Sub Binary64 := ⟨sub⟩

instance : Mul Binary64 := ⟨mul⟩

instance : Div Binary64 := ⟨div⟩

/-! ### Tests -/

/-- Whether the number is below zero. -/
def isNegative : Binary64 → Bool
  | nan => false
  | infinity negative => negative
  | finite negative rank => negative && unitsOfRank rank != 0

/-- The value, if it is an integer. -/
def toInt? : Binary64 → Option Int
  | nan | infinity _ => none
  | finite negative rank =>
    if unitsOfRank rank % unitsPerOne = 0 then
      some (signedUnits negative rank / unitsPerOne)
    else none

end VisitGraph.Numeric.Binary64
