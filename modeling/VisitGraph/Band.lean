import VisitGraph.Numeric.Quantity

/-! How far a call count lies from the mean. -/

namespace VisitGraph

open Numeric

/-- More than two or one spreads above the mean, or below it. -/
inductive Band where
  | farHigh
  | high
  | farLow
  | low
  deriving DecidableEq, Repr

namespace Band

/-- The short name of the band. -/
def label : Band → String
  | farHigh => "high-2σ"
  | high => "high-1σ"
  | farLow => "low-2σ"
  | low => "low-1σ"

/-- The band in a report. -/
def phrase : Band → String
  | farHigh => "2 STDEV more than AVG"
  | high => "1 STDEV more than AVG"
  | farLow => "2 STDEV less than AVG"
  | low => "1 STDEV less than AVG"

/-- The color of a node in the band. -/
def color : Band → String
  | farHigh => "green4"
  | high => "olivedrab"
  | farLow => "red1"
  | low => "red4"

/-- How many spreads from the mean the band begins. -/
def reach : Band → Int
  | farHigh | farLow => 2
  | high | low => 1

/-- Whether the band lies above the mean. -/
def isAbove : Band → Bool
  | farHigh | high => true
  | farLow | low => false

/-- Where the band begins. -/
def threshold (b : Band) (mean spread : Quantity) : Except Fault Quantity := do
  let distance ← (Quantity.int b.reach).mul spread
  if b.isAbove then mean.add distance else mean.sub distance

/-- Whether a call count lies beyond the threshold of the band. -/
def admits (b : Band) (calls mean spread : Quantity) : Except Fault Bool := do
  let threshold ← b.threshold mean spread
  return if b.isAbove then threshold.lt calls else calls.lt threshold

/-- The first of some bands that admits a call count. -/
def firstOf (bands : List Band) (calls mean spread : Quantity) : Except Fault (Option Band) :=
  match bands with
  | [] => .ok none
  | b :: rest => do
    if ← b.admits calls mean spread then return some b else firstOf rest calls mean spread

/-- The bands in the order in which they are tried. -/
def all : List Band := [farHigh, high, farLow, low]

/-- The band of a call count. -/
def classify (calls mean spread : Quantity) : Except Fault (Option Band) :=
  firstOf all calls mean spread

end VisitGraph.Band
