import PipelineSql.Number.Layout

namespace PipelineSql

inductive Literal where
  | null
  | bool (value : Bool)
  | int (value : Int64)
  | float (value : Double)
  | str (value : String)
deriving DecidableEq

instance : Inhabited Literal := ⟨.null⟩

namespace Literal

/-- Doubles in SQL and in displayed expressions: positional from `0.0001` up to sixteen places
before the point. -/
def numberLayout : NumberLayout where
  leastPoint := -3
  greatestPoint := 16
  positiveExponent := ""
  tie := .up
  notANumber := "NaN"
  positiveInfinity := "inf"
  negativeInfinity := "-inf"

def intText (i : Int64) : String := toString i.toInt

def floatText (x : Double) : String := numberLayout.write x

end Literal

end PipelineSql
