import PipelineSql.Catalog.ScalarType
import PipelineSql.Error

/-!
# Building SQL for operations

An operation becomes SQL by a builder, which sees its compiled arguments. A finished expression
replaces the call; a window function still needs its `OVER` clause.
-/

namespace PipelineSql

open Sql (Expr Ordered)

/-- How the `OVER` clause of a window function is built. -/
inductive WindowKind where
  /-- An aggregate over the whole partition. -/
  | aggregate
  /-- A ranking, by an ordering of its own or else by that of the query. -/
  | ranking (orderBy : Option (Ordered Expr))
  /-- An aggregate from the start of the partition to the current row. -/
  | cumulative

/-- A window function before its `OVER` clause is known. -/
structure WindowCall where
  function : Expr
  kind : WindowKind

/-- What an operation becomes in SQL. -/
inductive Built where
  | expression (e : Expr)
  | window (call : WindowCall)

/-- The compiled arguments of an operation; keywords are sorted. -/
structure Arguments where
  args : List Expr
  keywords : List (String × Expr) := []

/-- Turns the compiled arguments of an operation into SQL. -/
abbrev Builder := Arguments → Except ArgumentFault Built

namespace Arguments

variable {α : Type}

/-- Exactly one positional argument and no keyword. -/
def one (a : Arguments) (f : Expr → α) : Except ArgumentFault α :=
  match a.keywords, a.args with
  | [], [x] => .ok (f x)
  | [], args => .error (.wrongCount 1 args.length)
  | _ :: _, _ => .error .keywordsNotAccepted

/-- Exactly two positional arguments and no keyword. -/
def two (a : Arguments) (f : Expr → Expr → α) : Except ArgumentFault α :=
  match a.keywords, a.args with
  | [], [x, y] => .ok (f x y)
  | [], args => .error (.wrongCount 2 args.length)
  | _ :: _, _ => .error .keywordsNotAccepted

/-- Exactly three positional arguments and no keyword. -/
def three (a : Arguments) (f : Expr → Expr → Expr → α) : Except ArgumentFault α :=
  match a.keywords, a.args with
  | [], [x, y, z] => .ok (f x y z)
  | [], args => .error (.wrongCount 3 args.length)
  | _ :: _, _ => .error .keywordsNotAccepted

/-- At most one positional argument and no keyword. -/
def atMostOne (a : Arguments) (fault : ArgumentFault) (f : Option Expr → α) :
    Except ArgumentFault α :=
  match a.keywords, a.args with
  | [], [] => .ok (f none)
  | [], [x] => .ok (f (some x))
  | _, _ => .error fault

end Arguments

/-- Where the wildcard of a pattern stands. -/
inductive Matching where
  | start
  | finish
  | anywhere
deriving DecidableEq

/-- The pattern that matches a needle at the start, at the end or anywhere. -/
def Matching.pattern (needle : Expr) : Matching → Expr
  | .start => .binary needle "||" (.text "%")
  | .finish => .binary (.text "%") "||" needle
  | .anywhere => .binary (.binary (.text "%") "||" needle) "||" (.text "%")

/-- The builders that the dialects are made of. -/
inductive Template where
  /-- An operator between two arguments. -/
  | operator (symbol : String)
  /-- A function of one argument. -/
  | function (name : String)
  /-- A function whose first argument is a fixed text. -/
  | functionOf (name text : String)
  | and
  | or
  | not
  | negate
  | isNull
  | isNotNull
  | between
  | isIn
  | round
  | like (matching : Matching)
  | ifElse
  | caseWhen
  | coalesce
  /-- A cast, with the type names of a dialect. -/
  | cast (dialect : Dialect)
  /-- The year of a date held as text. -/
  | yearOfText
  /-- The Monday on or before a date held as text. -/
  | mondayOfText
  | countRows
  | countDistinct
  /-- A function of one argument over the whole partition. -/
  | overPartition (name : String)
  /-- The number of rows of the partition. -/
  | countPartition
  /-- A function without arguments, ordered by the argument of the operation if it has one. -/
  | ranking (name : String)
  /-- A function of one argument up to the current row. -/
  | running (name : String)
deriving DecidableEq

/-- The SQL name of a type. A dialect without storage for some types uses another in their
place. -/
def castName : Dialect → ScalarType → String
  | .sqlite, .boolean => "INTEGER"
  | .sqlite, .smallint => "INTEGER"
  | .sqlite, .bigint => "INTEGER"
  | .sqlite, .doublePrecision => "REAL"
  | .sqlite, .date => "TEXT"
  | .sqlite, .timestamp => "TEXT"
  | _, t => t.sqlName

/-- Conditions and values in turn. -/
def pairUp : List Expr → List (Expr × Expr)
  | c :: e :: rest => (c, e) :: pairUp rest
  | _ => []

/-- The type that a cast names. -/
def castTarget (dialect : Dialect) : Expr → Except ArgumentFault String
  | .value (.str name) =>
    match ScalarType.ofName? name with
    | some t => .ok (castName dialect t)
    | none => .error (.unknownType name)
  | _ => .error .typeNotText

/-- A cast takes its type as the second argument or under the keyword `dtype`. -/
def buildCast (dialect : Dialect) (a : Arguments) : Except ArgumentFault Expr :=
  match a.args, a.keywords.lookup "dtype" with
  | [x], some target => (castTarget dialect target).map fun type => .cast x type
  | [x, target], none => (castTarget dialect target).map fun type => .cast x type
  | _, _ => .error .noValueAndType

/-- Branches are pairs of positional arguments, and the last branch is the keyword `default`. -/
def buildCase (a : Arguments) : Except ArgumentFault Expr :=
  match (a.keywords.filter fun k => k.1 ≠ "default").head? with
  | some k => .error (.unexpectedKeyword k.1)
  | none =>
    if a.args.isEmpty || a.args.length % 2 ≠ 0 then .error .notPairs
    else .ok (.case (pairUp a.args) (a.keywords.lookup "default"))

/-- Membership in no values at all never holds. -/
def buildIsIn (a : Arguments) : Except ArgumentFault Expr :=
  match a.keywords, a.args with
  | _ :: _, _ => .error .keywordsNotAccepted
  | [], [] => .error .nothingToTest
  | [], [_] => .ok .never
  | [], x :: values => .ok (.isIn x values)

/-- Rounding takes the number of places as an optional second argument. -/
def buildRound (a : Arguments) : Except ArgumentFault Expr :=
  match a.args with
  | [_] => a.one fun x => .call "round" [x]
  | [_, _] => a.two fun x places => .call "round" [x, places]
  | args => .error (.notOneOrTwo args.length)

/-- The first argument that is not null, of one or more. -/
def buildCoalesce (a : Arguments) : Except ArgumentFault Expr :=
  match a.keywords, a.args with
  | [], x :: rest => .ok (.coalesce (x :: rest))
  | _, _ => .error .noPositional

def Template.build (t : Template) (a : Arguments) : Except ArgumentFault Built :=
  match t with
  | .operator symbol => a.two fun x y => .expression (.binary x symbol y)
  | .function name => a.one fun x => .expression (.call name [x])
  | .functionOf name text => a.one fun x => .expression (.call name [.text text, x])
  | .and => a.two fun x y => .expression (.and x y)
  | .or => a.two fun x y => .expression (.or x y)
  | .not => a.one fun x => .expression (.not x)
  | .negate => a.one fun x => .expression (.negate x)
  | .isNull => a.one fun x => .expression (.isNull x)
  | .isNotNull => a.one fun x => .expression (.isNotNull x)
  | .between => a.three fun x low high =>
    .expression (.and (.binary x ">=" low) (.binary x "<=" high))
  | .isIn => (buildIsIn a).map .expression
  | .round => (buildRound a).map .expression
  | .like matching => a.two fun x needle =>
    .expression (.binary x "LIKE" (matching.pattern needle))
  | .ifElse => a.three fun condition yes no => .expression (.case [(condition, yes)] (some no))
  | .caseWhen => (buildCase a).map .expression
  | .coalesce => (buildCoalesce a).map .expression
  | .cast dialect => (buildCast dialect a).map .expression
  | .yearOfText => a.one fun x =>
    .expression (.cast (.call "strftime" [.text "%Y", x]) "INTEGER")
  | .mondayOfText => a.one fun x =>
    .expression (.call "date" [x, .text "-6 days", .text "weekday 1"])
  | .countRows => a.atMostOne .moreThanOne fun _ => .expression .countAll
  | .countDistinct => a.one fun x => .expression (.countDistinct x)
  | .overPartition name => a.one fun x => .window ⟨.call name [x], .aggregate⟩
  | .countPartition => a.atMostOne .moreThanOne fun _ => .window ⟨.countAll, .aggregate⟩
  | .ranking name => a.atMostOne .moreThanOneToRankBy fun x =>
    .window ⟨.call name [], .ranking (x.map fun target => ⟨target, .asc⟩)⟩
  | .running name => a.one fun x => .window ⟨.call name [x], .cumulative⟩

end PipelineSql
