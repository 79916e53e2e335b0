import PipelineSql.Number.Double

/-!
# Shortest digits

The fewest decimal digits that read back as a double, found by trying the two decimals next to
it on coarser and then finer grids.
-/

namespace PipelineSql

/-- Which of two equally near decimals is taken. -/
inductive Tie where
  | up
  | toEven
deriving DecidableEq

/-- A positive decimal `0.d₁d₂… * 10 ^ point`, its first digit not zero. -/
structure Decimal where
  digits : List Nat
  point : Int
deriving DecidableEq

namespace Double

/-- The reals that round to a positive number, on the grid of quarter steps: the numbers `x`
with `low ≤ x / 2 ^ (scale - 2) ≤ high`, the ends included when the significand is even. The step
below a power of two is half the step above it. -/
structure Interval where
  low : Nat
  high : Nat
  closed : Bool

/-- The interval of a finite positive number. -/
def interval (x : Double) : Interval :=
  let narrow := x.fractionBits = 0 ∧ 1 < x.exponentBits
  { low := 4 * x.significand - (if narrow then 1 else 2)
    high := 4 * x.significand + 2
    closed := x.significand % 2 = 0 }

/-- The exact fraction `digits * 10 ^ k / 2 ^ (scale - 2)`, against which an interval is read. -/
def onQuarterGrid (x : Double) (digits : Nat) (k : Int) : Nat × Nat :=
  let q := x.scale - 2
  let num := digits * (if 0 ≤ k then Nat.pow 10 k.toNat else 1) *
    (if q < 0 then Nat.pow 2 (-q).toNat else 1)
  let den := (if k < 0 then Nat.pow 10 (-k).toNat else 1) *
    (if 0 ≤ q then Nat.pow 2 q.toNat else 1)
  (num, den)

/-- Whether `digits * 10 ^ k` reads back as the number. -/
def readsBack (x : Double) (digits : Nat) (k : Int) : Bool :=
  let (num, den) := x.onQuarterGrid digits k
  let i := x.interval
  if i.closed then decide (i.low * den ≤ num ∧ num ≤ i.high * den)
  else decide (i.low * den < num ∧ num < i.high * den)

/-- The largest `digits` with `digits * 10 ^ k` not above the number. -/
def floorAt (x : Double) (k : Int) : Nat :=
  let (num, den) := x.onQuarterGrid 1 k
  4 * x.significand * den / num

/-- Of two neighbours `digits` and `digits + 1` on the grid of `10 ^ k`, the nearer one to the
number. -/
def nearer (x : Double) (tie : Tie) (k : Int) (digits : Nat) : Nat :=
  let (num, den) := x.onQuarterGrid (2 * digits + 1) k
  let middle := 8 * x.significand * den
  if middle < num then digits
  else if num < middle then digits + 1
  else match tie with
    | .up => digits + 1
    | .toEven => digits + digits % 2

/-- The decimal on the grid of `10 ^ k` that stands for the number, if one reads back. -/
def hit? (x : Double) (tie : Tie) (k : Int) : Option Nat :=
  let below := x.floorAt k
  match x.readsBack below k, x.readsBack (below + 1) k with
  | true, true => some (x.nearer tie k below)
  | true, false => some below
  | false, true => some (below + 1)
  | false, false => none

/-- The number of decimal places before the point of a positive number, found from the binary
exponent up to one place. -/
def decimalPoint (x : Double) : Int :=
  let binary : Int := Nat.log2 x.significand + x.scale
  let guess : Int := binary * 30103 / 100000
  if 0 < x.floorAt (guess + 1) then guess + 2
  else if 0 < x.floorAt guess then guess + 1
  else guess

/-- The digits of a natural number, without the zeros at its end. -/
def significantDigits (n : Nat) : List Nat :=
  (((Nat.toDigits 10 n).map fun c => c.toNat - 48).reverse.dropWhile (· = 0)).reverse

/-- The decimal `digits * 10 ^ k`. -/
def decimalOf (digits : Nat) (k : Int) : Decimal :=
  ⟨significantDigits digits, (Nat.toDigits 10 digits).length + k⟩

/-- The fewest digits that read back as a finite positive number, and of those the nearest to
it. Seventeen digits always suffice. -/
def shortest (x : Double) (tie : Tie) : Decimal :=
  let point := x.decimalPoint
  let hits := (List.range 17).findSome? fun (n : Nat) =>
    (x.hit? tie (point - 1 - (n : Int))).map fun digits => decimalOf digits (point - 1 - (n : Int))
  hits.getD (decimalOf (x.floorAt (point - 17)) (point - 17))

end Double

end PipelineSql
