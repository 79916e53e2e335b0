import PipelineSql.ColumnExpr.Display
import PipelineSql.Dialect

namespace PipelineSql

/-- The context in which an expression is compiled. -/
inductive Mode where
  /-- Row by row only. -/
  | scalar
  /-- One value for each group. -/
  | aggregate
  /-- Row by row, with window functions. -/
  | window
deriving DecidableEq, Inhabited

def Mode.name : Mode → String
  | .scalar => "scalar"
  | .aggregate => "aggregate"
  | .window => "window"

/-- What is wrong with the arguments of an operation. -/
inductive ArgumentFault where
  | keywordsNotAccepted
  | wrongCount (expected got : Nat)
  | notOneOrTwo (got : Nat)
  | moreThanOne
  | moreThanOneToRankBy
  | nothingToTest
  | unexpectedKeyword (name : String)
  | notPairs
  | noPositional
  | noValueAndType
  | typeNotText
  | unknownType (name : String)
deriving DecidableEq

def ArgumentFault.message : ArgumentFault → String
  | .keywordsNotAccepted => "keyword arguments are not accepted"
  | .wrongCount expected got =>
    "expected " ++ toString expected ++ " argument(s), got " ++ toString got
  | .notOneOrTwo got => "expected 1 or 2 arguments, got " ++ toString got
  | .moreThanOne => "expected at most one argument"
  | .moreThanOneToRankBy => "expected at most one argument to rank by"
  | .nothingToTest => "expected a value to test"
  | .unexpectedKeyword name => "unexpected keyword argument '" ++ name ++ "'"
  | .notPairs => "expected condition and value pairs"
  | .noPositional => "expected at least one positional argument"
  | .noValueAndType => "expected a value and a type"
  | .typeNotText => "the type must be a string"
  | .unknownType name => "unknown type '" ++ name ++ "'"

/-- What is wrong with the arguments of a verb. -/
inductive VerbFault where
  | notASelector (e : ColumnExpr)
  | noColumnAt (position : Int64)
  | notABound (e : ColumnExpr)
  | nothingSelected
  | nothingToSummarize
  | notAGroupingColumn (e : ColumnExpr)
  | dialectsDiffer (left right : Dialect)
  | noKeyColumns
  | unknownJoinKind (how : String)
  | notARenamedColumn (e : ColumnExpr)
  | nameTakenTwice (name : String)
  | keepAllWithColumns
  | notADistinctColumn (e : ColumnExpr)
deriving DecidableEq

namespace VerbFault

/-- The verb that finds the fault. -/
def verb : VerbFault → String
  | .notASelector _ | .noColumnAt _ | .notABound _ | .nothingSelected => "select"
  | .nothingToSummarize => "summarize"
  | .notAGroupingColumn _ => "group_by"
  | .dialectsDiffer _ _ | .noKeyColumns | .unknownJoinKind _ => "join"
  | .notARenamedColumn _ | .nameTakenTwice _ => "rename"
  | .keepAllWithColumns | .notADistinctColumn _ => "distinct"

def message : VerbFault → String
  | .notASelector e =>
    "'" ++ e.display ++ "' is not a column, a run of columns, a rename or an exclusion"
  | .noColumnAt position => "no column at position " ++ Literal.intText position
  | .notABound e => "'" ++ e.display ++ "' cannot bound a run of columns"
  | .nothingSelected => "no columns were selected"
  | .nothingToSummarize => "expected at least one column or a grouping"
  | .notAGroupingColumn e =>
    "'" ++ e.display ++ "' is not a column name; add it with mutate first"
  | .dialectsDiffer left right =>
    "cannot join a " ++ left.name ++ " query with a " ++ right.name ++ " query"
  | .noKeyColumns => "on must name at least one key column"
  | .unknownJoinKind how =>
    "how must be one of inner, left, right or full, not '" ++ how ++ "'"
  | .notARenamedColumn e => "'" ++ e.display ++ "' is not a column name, e.g. _.x or _[\"x\"]"
  | .nameTakenTwice name => "more than one column would be named '" ++ name ++ "'"
  | .keepAllWithColumns => "keep_all cannot be combined with columns"
  | .notADistinctColumn e =>
    "'" ++ e.display ++ "' is not a column name; name it to compute it first"

end VerbFault

/-- What cannot be compiled at all. -/
inductive Unsupported where
  | nestedWindow (operation : Operation)
  | expression (e : ColumnExpr)
  | sessionJoin
deriving DecidableEq

def Unsupported.message : Unsupported → String
  | .nestedWindow operation =>
    "a window function inside the arguments of '" ++ operation.name ++ "'"
  | .expression e => "the expression '" ++ e.display ++ "'"
  | .sessionJoin => "join as a session verb"

/-- Why a query cannot be compiled. -/
inductive Error where
  | collectionNotFound (name : String)
  | unknownColumn (name : String) (available : List String)
  | unsupportedOperation (dialect : Dialect) (operation : Operation) (mode : Mode)
  | invalidArguments (operation : Operation) (fault : ArgumentFault)
  | invalidVerb (fault : VerbFault)
  | ambiguousColumn (column : String)
  | notSupported (what : Unsupported)
  /-- A run of columns that ends outside the table, which only a table without columns allows. -/
  | runOutOfBounds (stop size : Nat)
deriving DecidableEq

def Error.message : Error → String
  | .collectionNotFound name => "Collection '" ++ name ++ "' not found."
  | .unknownColumn name available =>
    "Column '" ++ name ++ "' not found. Available columns: " ++ ", ".intercalate available ++ "."
  | .unsupportedOperation dialect operation mode =>
    "The " ++ dialect.name ++ " dialect does not support '" ++ operation.name ++ "' in " ++
      mode.name ++ " context."
  | .invalidArguments operation fault =>
    "Invalid arguments to '" ++ operation.name ++ "': " ++ fault.message
  | .invalidVerb fault => "Invalid argument to " ++ fault.verb ++ ": " ++ fault.message
  | .ambiguousColumn column =>
    "In summarize, '" ++ column ++
      "' refers to a column created in the same call. Split the call in two."
  | .notSupported what => "Queries containing " ++ what.message ++ " are not supported."
  | .runOutOfBounds stop size =>
    "range end index " ++ toString stop ++ " out of range for slice of length " ++ toString size

end PipelineSql
