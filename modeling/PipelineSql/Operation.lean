namespace PipelineSql

/-- The closed vocabulary of operations that a column expression can call. -/
inductive Operation where
  | equal
  | notEqual
  | lessThan
  | atMost
  | greaterThan
  | atLeast
  | between
  | isIn
  | isNull
  | isNotNull
  | add
  | subtract
  | multiply
  | divide
  | modulo
  | negate
  | and
  | or
  | not
  | abs
  | round
  | sqrt
  | exp
  | ln
  | cos
  | sin
  | cot
  | upper
  | lower
  | length
  | strip
  | startsWith
  | endsWith
  | contains
  | year
  | hour
  | week
  | ifElse
  | caseWhen
  | coalesce
  | castTo
  | mean
  | sum
  | min
  | max
  | variance
  | deviation
  | count
  | countDistinct
  | rowNumber
  | rank
  | minRank
  | denseRank
  | percentRank
  | cumulativeShare
  | runningSum
  | runningMean
  | runningMin
  | runningMax
  | lead
  | lag
  | nth
  | first
  | last
  | tiles
  | descending
deriving DecidableEq, Inhabited

namespace Operation

/-- Every operation, in the order of the vocabulary. -/
def all : List Operation :=
  [.equal, .notEqual, .lessThan, .atMost, .greaterThan, .atLeast, .between, .isIn, .isNull,
    .isNotNull, .add, .subtract, .multiply, .divide, .modulo, .negate, .and, .or, .not, .abs,
    .round, .sqrt, .exp, .ln, .cos, .sin, .cot, .upper, .lower, .length, .strip, .startsWith,
    .endsWith, .contains, .year, .hour, .week, .ifElse, .caseWhen, .coalesce, .castTo, .mean,
    .sum, .min, .max, .variance, .deviation, .count, .countDistinct, .rowNumber, .rank,
    .minRank, .denseRank, .percentRank, .cumulativeShare, .runningSum, .runningMean,
    .runningMin, .runningMax, .lead, .lag, .nth, .first, .last, .tiles, .descending]

/-- The name under which an operation is written. -/
def name : Operation → String
  | .equal => "eq"
  | .notEqual => "ne"
  | .lessThan => "lt"
  | .atMost => "le"
  | .greaterThan => "gt"
  | .atLeast => "ge"
  | .between => "between"
  | .isIn => "isin"
  | .isNull => "isna"
  | .isNotNull => "notna"
  | .add => "add"
  | .subtract => "sub"
  | .multiply => "mul"
  | .divide => "truediv"
  | .modulo => "mod"
  | .negate => "neg"
  | .and => "and"
  | .or => "or"
  | .not => "invert"
  | .abs => "abs"
  | .round => "round"
  | .sqrt => "sqrt"
  | .exp => "exp"
  | .ln => "log"
  | .cos => "cos"
  | .sin => "sin"
  | .cot => "cot"
  | .upper => "upper"
  | .lower => "lower"
  | .length => "str_len"
  | .strip => "strip"
  | .startsWith => "startswith"
  | .endsWith => "endswith"
  | .contains => "contains"
  | .year => "year"
  | .hour => "hour"
  | .week => "week"
  | .ifElse => "if_else"
  | .caseWhen => "case_when"
  | .coalesce => "coalesce"
  | .castTo => "astype"
  | .mean => "mean"
  | .sum => "sum"
  | .min => "min"
  | .max => "max"
  | .variance => "var"
  | .deviation => "sd"
  | .count => "n"
  | .countDistinct => "n_distinct"
  | .rowNumber => "row_number"
  | .rank => "rank"
  | .minRank => "min_rank"
  | .denseRank => "dense_rank"
  | .percentRank => "percent_rank"
  | .cumulativeShare => "cume_dist"
  | .runningSum => "cumsum"
  | .runningMean => "cummean"
  | .runningMin => "cummin"
  | .runningMax => "cummax"
  | .lead => "lead"
  | .lag => "lag"
  | .nth => "nth"
  | .first => "first"
  | .last => "last"
  | .tiles => "ntile"
  | .descending => "desc"

/-- Further names under which an operation is known. -/
def otherNames : Operation → List String
  | .isNull => ["isnull"]
  | .isNotNull => ["notnull"]
  | .divide => ["div"]
  | .not => ["not"]
  | .ln => ["ln"]
  | .ifElse => ["where"]
  | .coalesce => ["fillna"]
  | .castTo => ["cast"]
  | .deviation => ["std"]
  | .count => ["len", "count"]
  | .countDistinct => ["nunique"]
  | _ => []

/-- All names of an operation, the one it is written under first. -/
def names (op : Operation) : List String := op.name :: op.otherNames

/-- The operation known by a name. -/
def ofName? (name : String) : Option Operation :=
  all.find? fun op => decide (name ∈ op.names)

theorem mem_all (op : Operation) : op ∈ all := by cases op <;> decide

theorem ofName?_name (op : Operation) : ofName? op.name = some op := by
  cases op <;> decide

/-- The sign of an operation that is shown between its two operands. -/
def sign? : Operation → Option String
  | .equal => some "=="
  | .notEqual => some "!="
  | .lessThan => some "<"
  | .atMost => some "<="
  | .greaterThan => some ">"
  | .atLeast => some ">="
  | .add => some "+"
  | .subtract => some "-"
  | .multiply => some "*"
  | .divide => some "/"
  | .modulo => some "%"
  | .and => some "&"
  | .or => some "|"
  | _ => none

end Operation

end PipelineSql
