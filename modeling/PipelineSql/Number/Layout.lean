import PipelineSql.Number.Shortest

/-!
# Number layouts

Where the point and the exponent of a decimal go is a matter of the format that writes it. A
`NumberLayout` holds the decisions of one format.
-/

namespace PipelineSql

/-- How a double is written. Between `leastPoint` and `greatestPoint` places before the point the
digits stand around a decimal point, with at least one of them behind it; outside, one digit
stands before the point and a power of ten follows. -/
structure NumberLayout where
  leastPoint : Int
  greatestPoint : Int
  positiveExponent : String
  tie : Tie
  notANumber : String
  positiveInfinity : String
  negativeInfinity : String

namespace NumberLayout

/-- The text of digits. -/
def digitText (digits : List Nat) : String :=
  String.ofList (digits.map Nat.digitChar)

/-- Digits around a decimal point, `point` of them before it. -/
def positional (digits : List Nat) (point : Int) : String :=
  if point ≤ 0 then
    "0." ++ digitText (List.replicate (-point).toNat 0 ++ digits)
  else
    let whole := digits.take point.toNat
    let padding := List.replicate (point.toNat - digits.length) 0
    let places := digits.drop point.toNat
    digitText (whole ++ padding) ++ "." ++ (if places.isEmpty then "0" else digitText places)

/-- One digit before the point, and a power of ten. -/
def scientific (layout : NumberLayout) (digits : List Nat) (point : Int) : String :=
  let places := digits.drop 1
  let exponent := point - 1
  digitText (digits.take 1) ++ (if places.isEmpty then "" else "." ++ digitText places) ++ "e" ++
    (if exponent < 0 then "-" else layout.positiveExponent) ++ toString exponent.natAbs

/-- The text of a finite magnitude. -/
def magnitude (layout : NumberLayout) (x : Double) : String :=
  if x.isZero then "0.0"
  else
    let d := x.shortest layout.tie
    if layout.leastPoint ≤ d.point ∧ d.point ≤ layout.greatestPoint then
      positional d.digits d.point
    else layout.scientific d.digits d.point

/-- The text of a double. -/
def write (layout : NumberLayout) (x : Double) : String :=
  if x.isFinite then (if x.isNegative then "-" else "") ++ layout.magnitude x
  else if x.fractionBits ≠ 0 then layout.notANumber
  else if x.isNegative then layout.negativeInfinity
  else layout.positiveInfinity

end NumberLayout

end PipelineSql
