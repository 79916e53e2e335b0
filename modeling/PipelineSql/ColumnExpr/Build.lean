import PipelineSql.ColumnExpr.Basic

namespace PipelineSql.ColumnExpr

def ofLiteral (value : Literal) : ColumnExpr := .literal value

def text (s : String) : ColumnExpr := .literal (.str s)

/-- The subscript of the table by a column name. -/
def item (name : String) : ColumnExpr := .index .reference (text name)

/-- Calls an operation with positional arguments only. -/
def apply (operation : Operation) (args : List ColumnExpr) : ColumnExpr :=
  .call operation args []

/-- The number of rows in the group. -/
def rowCount : ColumnExpr := apply .count []

/-- The number of the row in its order. -/
def rowNumber : ColumnExpr := apply .rowNumber []

/-- Rounds to a number of decimal places. -/
def round (e : ColumnExpr) (places : Int64) : ColumnExpr :=
  apply .round [e, .literal (.int places)]

/-- Whether a value lies between two others, both included. -/
def between (e low high : ColumnExpr) : ColumnExpr := apply .between [e, low, high]

/-- Membership in a list of values. -/
def isIn (e : ColumnExpr) (values : List ColumnExpr) : ColumnExpr := apply .isIn (e :: values)

/-- One value where a condition holds, another elsewhere. -/
def ifElse (condition whenTrue whenFalse : ColumnExpr) : ColumnExpr :=
  apply .ifElse [condition, whenTrue, whenFalse]

/-- The value of the first branch whose condition holds, or a default. -/
def caseWhen (branches : List (ColumnExpr × ColumnExpr)) (default : Option ColumnExpr) :
    ColumnExpr :=
  .call .caseWhen (branches.flatMap fun b => [b.1, b.2])
    (match default with
      | none => []
      | some e => [("default", e)])

/-- The first argument that is not null. -/
def coalesce (args : List ColumnExpr) : ColumnExpr := apply .coalesce args

/-- The operations with two operands that can be called as a method of the first, by name. -/
def binaryMethod? : String → Option Operation
  | "eq" => some .equal
  | "ne" => some .notEqual
  | "lt" => some .lessThan
  | "le" => some .atMost
  | "gt" => some .greaterThan
  | "ge" => some .atLeast
  | "add" => some .add
  | "sub" => some .subtract
  | "mul" => some .multiply
  | "div" => some .divide
  | "modulo" => some .modulo
  | "and" => some .and
  | "or" => some .or
  | "startswith" => some .startsWith
  | "endswith" => some .endsWith
  | "contains" => some .contains
  | "astype" => some .castTo
  | "fillna" => some .coalesce
  | _ => none

/-- The operations with one operand that can be called as its method, by name. -/
def unaryMethod? : String → Option Operation
  | "neg" => some .negate
  | "not" => some .not
  | "is_na" => some .isNull
  | "not_na" => some .isNotNull
  | "abs" => some .abs
  | "sqrt" => some .sqrt
  | "exp" => some .exp
  | "ln" => some .ln
  | "cos" => some .cos
  | "sin" => some .sin
  | "cot" => some .cot
  | "upper" => some .upper
  | "lower" => some .lower
  | "str_len" => some .length
  | "strip" => some .strip
  | "year" => some .year
  | "hour" => some .hour
  | "week" => some .week
  | "mean" => some .mean
  | "sum" => some .sum
  | "min" => some .min
  | "max" => some .max
  | "var" => some .variance
  | "sd" => some .deviation
  | "n_distinct" => some .countDistinct
  | "rank" => some .rank
  | "min_rank" => some .minRank
  | "dense_rank" => some .denseRank
  | "percent_rank" => some .percentRank
  | "cume_dist" => some .cumulativeShare
  | "cumsum" => some .runningSum
  | "cummean" => some .runningMean
  | "cummin" => some .runningMin
  | "cummax" => some .runningMax
  | "lag" => some .lag
  | "lead" => some .lead
  | "desc" => some .descending
  | _ => none

/-- The operations written between two operands. -/
def binarySign? : String → Option Operation
  | "+" => some .add
  | "-" => some .subtract
  | "*" => some .multiply
  | "/" => some .divide
  | "%" => some .modulo
  | "&" => some .and
  | "|" => some .or
  | _ => none

/-- The operations written before one operand. -/
def unarySign? : String → Option Operation
  | "-" => some .negate
  | "!" => some .not
  | _ => none

end PipelineSql.ColumnExpr
