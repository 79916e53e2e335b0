import PipelineSql.Function.Builder

/-!
# Function tables

What each dialect offers, in three buckets. Tables are total functions, so that changing one
operation leaves the others alone by definition.
-/

namespace PipelineSql

/-- The operations that both dialects write alike, row by row. -/
def commonScalar : Operation → Option Template
  | .equal => some (.operator "=")
  | .notEqual => some (.operator "<>")
  | .lessThan => some (.operator "<")
  | .atMost => some (.operator "<=")
  | .greaterThan => some (.operator ">")
  | .atLeast => some (.operator ">=")
  | .between => some .between
  | .isIn => some .isIn
  | .isNull => some .isNull
  | .isNotNull => some .isNotNull
  | .add => some (.operator "+")
  | .subtract => some (.operator "-")
  | .multiply => some (.operator "*")
  | .divide => some (.operator "/")
  | .modulo => some (.operator "%")
  | .negate => some .negate
  | .and => some .and
  | .or => some .or
  | .not => some .not
  | .abs => some (.function "abs")
  | .round => some .round
  | .upper => some (.function "upper")
  | .lower => some (.function "lower")
  | .length => some (.function "length")
  | .strip => some (.function "trim")
  | .startsWith => some (.like .start)
  | .endsWith => some (.like .finish)
  | .contains => some (.like .anywhere)
  | .ifElse => some .ifElse
  | .caseWhen => some .caseWhen
  | .coalesce => some .coalesce
  | .sqrt => some (.function "sqrt")
  | .exp => some (.function "exp")
  | .ln => some (.function "ln")
  | .cos => some (.function "cos")
  | .sin => some (.function "sin")
  | _ => none

/-- The operations of a dialect that work row by row. -/
def scalarTemplate : Dialect → Operation → Option Template
  | .postgres, .cot => some (.function "cot")
  | .postgres, .year => some (.functionOf "date_part" "year")
  | .postgres, .hour => some (.functionOf "date_trunc" "hour")
  | .postgres, .week => some (.functionOf "date_trunc" "week")
  | .sqlite, .year => some .yearOfText
  | .sqlite, .hour => some (.functionOf "strftime" "%Y-%m-%d %H:00:00")
  | .sqlite, .week => some .mondayOfText
  | dialect, .castTo => some (.cast dialect)
  | _, operation => commonScalar operation

/-- The operations of a dialect that give one value for each group. -/
def aggregateTemplate : Dialect → Operation → Option Template
  | _, .mean => some (.function "avg")
  | _, .sum => some (.function "sum")
  | _, .min => some (.function "min")
  | _, .max => some (.function "max")
  | _, .count => some .countRows
  | _, .countDistinct => some .countDistinct
  | .postgres, .variance => some (.function "var_samp")
  | .postgres, .deviation => some (.function "stddev_samp")
  | _, _ => none

/-- The operations of a dialect that are window functions. -/
def windowTemplate : Dialect → Operation → Option Template
  | _, .mean => some (.overPartition "avg")
  | _, .sum => some (.overPartition "sum")
  | _, .min => some (.overPartition "min")
  | _, .max => some (.overPartition "max")
  | _, .count => some .countPartition
  | .postgres, .variance => some (.overPartition "var_samp")
  | .postgres, .deviation => some (.overPartition "stddev_samp")
  | _, .rowNumber => some (.ranking "row_number")
  | _, .rank => some (.ranking "rank")
  | _, .minRank => some (.ranking "rank")
  | _, .denseRank => some (.ranking "dense_rank")
  | _, .percentRank => some (.ranking "percent_rank")
  | _, .cumulativeShare => some (.ranking "cume_dist")
  | _, .runningSum => some (.running "sum")
  | _, .runningMean => some (.running "avg")
  | _, .runningMin => some (.running "min")
  | _, .runningMax => some (.running "max")
  | _, _ => none

/-- The operations that can be used in a dialect, and how each is written. Scalar builders apply
in every context; the others only where groups, or windows, are computed. -/
structure FunctionTable where
  dialect : Dialect
  scalar : Operation → Option Builder
  aggregate : Operation → Option Builder
  window : Operation → Option Builder

namespace FunctionTable

def empty (dialect : Dialect) : FunctionTable where
  dialect := dialect
  scalar := fun _ => none
  aggregate := fun _ => none
  window := fun _ => none

/-- The table that comes with a dialect. -/
def builtIn (dialect : Dialect) : FunctionTable where
  dialect := dialect
  scalar := fun op => (scalarTemplate dialect op).map Template.build
  aggregate := fun op => (aggregateTemplate dialect op).map Template.build
  window := fun op => (windowTemplate dialect op).map Template.build

instance : Inhabited FunctionTable := ⟨builtIn .postgres⟩

/-- Sets the entry of one operation. -/
def setEntry (entries : Operation → Option Builder) (op : Operation) (entry : Option Builder) :
    Operation → Option Builder :=
  fun o => if o = op then entry else entries o

def withScalar (t : FunctionTable) (op : Operation) (b : Builder) : FunctionTable :=
  { t with scalar := setEntry t.scalar op (some b) }

def withAggregate (t : FunctionTable) (op : Operation) (b : Builder) : FunctionTable :=
  { t with aggregate := setEntry t.aggregate op (some b) }

def withWindow (t : FunctionTable) (op : Operation) (b : Builder) : FunctionTable :=
  { t with window := setEntry t.window op (some b) }

/-- Adds or replaces the builder of a context. -/
def withBuilder (t : FunctionTable) : Mode → Operation → Builder → FunctionTable
  | .scalar => t.withScalar
  | .aggregate => t.withAggregate
  | .window => t.withWindow

def without (t : FunctionTable) (op : Operation) : FunctionTable :=
  { t with
    scalar := setEntry t.scalar op none
    aggregate := setEntry t.aggregate op none
    window := setEntry t.window op none }

/-- The builder of an operation in a context: a scalar one if there is one, else that of the
context. -/
def find? (t : FunctionTable) (op : Operation) (mode : Mode) : Option Builder :=
  match t.scalar op with
  | some b => some b
  | none =>
    match mode with
    | .scalar => none
    | .aggregate => t.aggregate op
    | .window => t.window op

/-- The builder of an operation in a context, or why there is none. -/
def lookup (t : FunctionTable) (op : Operation) (mode : Mode) : Except Error Builder :=
  match t.find? op mode with
  | some b => .ok b
  | none => .error (.unsupportedOperation t.dialect op mode)

/-- Whether an operation can be used in a context. -/
def supports (t : FunctionTable) (op : Operation) (mode : Mode) : Bool := (t.find? op mode).isSome

inductive Edit where
  | remove (op : Operation)
  /-- Puts what the table of a dialect has for one operation in the place of another. -/
  | borrow (bucket : Mode) (op : Operation) (dialect : Dialect) (lender : Operation) (mode : Mode)

def edit (t : FunctionTable) : Edit → Except Error FunctionTable
  | .remove op => .ok (t.without op)
  | .borrow bucket op dialect lender mode => do
    let b ← (builtIn dialect).lookup lender mode
    return t.withBuilder bucket op b

end FunctionTable

end PipelineSql
