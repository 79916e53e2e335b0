import PipelineSql.Proofs.References
import PipelineSql.Request.Basic

/-!
# Rows

What a statement means on rows, and what a verb does to rows, for everything that works row by
row. The two are defined apart: statements over the columns that their source offers, verbs over
the rows themselves.
-/

namespace PipelineSql

open Sql (Expr ColumnRef TableRef TableAlias Select Source)

variable {V : Type}

/-- How values are combined. Operators and functions are arbitrary, except that `AND` holds exactly
when both sides do and that the literal `TRUE`, the conjunction of no conditions, holds. -/
structure Interpretation (V : Type) where
  literal : Literal → V
  and : V → V → V
  or : V → V → V
  not : V → V
  binary : String → V → V → V
  isIn : V → List V → V
  isNull : V → V
  isNotNull : V → V
  negate : V → V
  call : String → List V → V
  case : List (V × V) → Option V → V
  cast : String → V → V
  /-- Whether a row is kept on which a condition has this value. -/
  holds : V → Bool
  holds_and : ∀ a b, holds (and a b) = (holds a && holds b)
  holds_always : holds (literal (.bool true)) = true

/-- Values under labels, in order. -/
abbrev Row (V : Type) := List (String × V)

/-- The members of a list that pass a test, where the test has an answer for each of them. -/
def keepWhere {α : Type} (p : α → Option Bool) : List α → Option (List α)
  | [] => some []
  | a :: l => do
    let keep ← p a
    let kept ← keepWhere p l
    return if keep then a :: kept else kept

namespace Sql

/-- What the columns of the current row hold. -/
abbrev Env (V : Type) := ColumnRef → Option V

/-- A row of a table, whose columns are read under an alias. -/
def tableEnv (a : TableAlias) (stored : String → V) : Env V := fun r =>
  if r.table = .aliased a then some (stored r.name) else none

/-- A row of a subquery, whose columns are read under an alias. -/
def rowEnv (a : TableAlias) (row : Row V) : Env V := fun r =>
  if r.table = .aliased a then row.lookup r.name else none

namespace Expr

mutual

/-- The value of an expression on a row. Window functions and aggregates have none. -/
def eval (I : Interpretation V) (env : Env V) : Expr → Option V
  | .and l r => do return I.and (← l.eval I env) (← r.eval I env)
  | .or l r => do return I.or (← l.eval I env) (← r.eval I env)
  | .not e => do return I.not (← e.eval I env)
  | .binary l symbol r => do return I.binary symbol (← l.eval I env) (← r.eval I env)
  | .isIn e es => do return I.isIn (← e.eval I env) (← evalList I env es)
  | .isNull e => do return I.isNull (← e.eval I env)
  | .isNotNull e => do return I.isNotNull (← e.eval I env)
  | .negate e => do return I.negate (← e.eval I env)
  | .call f args => do return I.call f (← evalList I env args)
  | .case whens otherwise => do
    return I.case (← evalWhens I env whens) (← evalOption I env otherwise)
  | .window _ _ => none
  | .column r => env r
  | .value v => some (I.literal v)
  | .cast e type => do return I.cast type (← e.eval I env)
  | .countAll => none
  | .count _ => none
  | .countDistinct _ => none

def evalList (I : Interpretation V) (env : Env V) : List Expr → Option (List V)
  | [] => some []
  | e :: es => do return (← e.eval I env) :: (← evalList I env es)

def evalWhens (I : Interpretation V) (env : Env V) :
    List (Expr × Expr) → Option (List (V × V))
  | [] => some []
  | (c, e) :: rest => do
    return (← c.eval I env, ← e.eval I env) :: (← evalWhens I env rest)

def evalOption (I : Interpretation V) (env : Env V) : Option Expr → Option (Option V)
  | none => some none
  | some e => do return some (← e.eval I env)

end

end Expr

namespace Select

/-- The select list on a row. -/
def evalColumns (I : Interpretation V) (columns : List (String × Expr)) (env : Env V) :
    Option (Row V) :=
  columns.mapM fun c => do return (c.1, ← c.2.eval I env)

/-- Whether a query works row by row: it joins, groups and orders nothing. -/
def isRowWise (q : Select) : Bool := q.joins.isEmpty && q.groupBy.isEmpty && q.orderBy.isEmpty

/-- The rows that are left of those selected: each of them once, from the offset on and up to the
limit. -/
def cut [DecidableEq V] (q : Select) (rows : List (Row V)) : List (Row V) :=
  let distinct := if q.distinct then rows.eraseDups else rows
  let rest := distinct.drop (q.offset.elim 0 UInt32.toNat)
  q.limit.elim rest fun n => rest.take n.toNat

/-- What is selected from the rows of the source that meet the condition. -/
def selected [DecidableEq V] (I : Interpretation V) (q : Select) (envs : List (Env V)) :
    Option (List (Row V)) := do
  let matching ← keepWhere (fun env => (q.condition.eval I env).map I.holds) envs
  let rows ← matching.mapM (evalColumns I q.columns)
  return q.cut rows

mutual

/-- The rows of a statement over a database that holds a list of rows for every table. -/
def rows [DecidableEq V] (I : Interpretation V) (db : TableRef → List (String → V)) :
    Select → Option (List (Row V))
  | ⟨distinct, columns, source, joins, condition, groupBy, orderBy, limit, offset⟩ =>
    let q : Select :=
      ⟨distinct, columns, source, joins, condition, groupBy, orderBy, limit, offset⟩
    if q.isRowWise then (sourceRows I db source).bind (q.selected I) else none

def sourceRows [DecidableEq V] (I : Interpretation V) (db : TableRef → List (String → V)) :
    Option (Source Select) → Option (List (Env V))
  | none => none
  | some (.table t a) => some ((db t).map (tableEnv a))
  | some (.subquery q a) => (q.rows I db).map (List.map (rowEnv a))

end

end Select

end Sql

/-- An argument of an operation: its value, and its text where it is a text by itself. -/
structure Operand (V : Type) where
  value : V
  text : Option String

/-- Members of a list in pairs. -/
def inPairs {α : Type} : List α → List (α × α)
  | a :: b :: rest => (a, b) :: inPairs rest
  | _ => []

namespace Template

/-- A cast to the type that an operand names. -/
def castMeaning (I : Interpretation V) (dialect : Dialect) (x type : Operand V) : Option V := do
  let name ← type.text
  let t ← ScalarType.ofName? name
  return I.cast (castName dialect t) x.value

/-- What the row-wise templates do with values. -/
def meaning (I : Interpretation V) :
    Template → List (Operand V) → List (String × Operand V) → Option V
  | .operator symbol, [x, y], [] => some (I.binary symbol x.value y.value)
  | .function name, [x], [] => some (I.call name [x.value])
  | .functionOf name text, [x], [] => some (I.call name [I.literal (.str text), x.value])
  | .and, [x, y], [] => some (I.and x.value y.value)
  | .or, [x, y], [] => some (I.or x.value y.value)
  | .not, [x], [] => some (I.not x.value)
  | .negate, [x], [] => some (I.negate x.value)
  | .isNull, [x], [] => some (I.isNull x.value)
  | .isNotNull, [x], [] => some (I.isNotNull x.value)
  | .between, [x, low, high], [] =>
    some (I.and (I.binary ">=" x.value low.value) (I.binary "<=" x.value high.value))
  | .isIn, [_], [] => some (I.literal (.bool false))
  | .isIn, x :: values, [] => some (I.isIn x.value (values.map Operand.value))
  | .round, [x], [] => some (I.call "round" [x.value])
  | .round, [x, places], [] => some (I.call "round" [x.value, places.value])
  | .like .start, [x, needle], [] =>
    some (I.binary "LIKE" x.value (I.binary "||" needle.value (I.literal (.str "%"))))
  | .like .finish, [x, needle], [] =>
    some (I.binary "LIKE" x.value (I.binary "||" (I.literal (.str "%")) needle.value))
  | .like .anywhere, [x, needle], [] =>
    some (I.binary "LIKE" x.value (I.binary "||" (I.binary "||" (I.literal (.str "%"))
      needle.value) (I.literal (.str "%"))))
  | .ifElse, [condition, yes, no], [] =>
    some (I.case [(condition.value, yes.value)] (some no.value))
  | .caseWhen, branches, keywords =>
    some (I.case (inPairs (branches.map Operand.value))
      ((keywords.lookup "default").map Operand.value))
  | .coalesce, x :: rest, [] => some (I.call "coalesce" (x.value :: rest.map Operand.value))
  | .cast dialect, [x, type], keywords =>
    if (keywords.lookup "dtype").isNone then castMeaning I dialect x type else none
  | .cast dialect, [x], keywords => do castMeaning I dialect x (← keywords.lookup "dtype")
  | .yearOfText, [x], [] =>
    some (I.cast "INTEGER" (I.call "strftime" [I.literal (.str "%Y"), x.value]))
  | .mondayOfText, [x], [] =>
    some (I.call "date" [x.value, I.literal (.str "-6 days"), I.literal (.str "weekday 1")])
  | _, _, _ => none

end Template

namespace ColumnExpr

/-- The text of an expression that is a text by itself. -/
def text? : ColumnExpr → Option String
  | .literal (.str s) => some s
  | _ => none

mutual

/-- The value of an expression on a row, by the row-wise operations of a dialect. -/
def denote (I : Interpretation V) (dialect : Dialect) (row : Row V) : ColumnExpr → Option V
  | .literal v => some (I.literal v)
  | .attr .reference name => row.lookup name
  | .index .reference (.literal (.str name)) => row.lookup name
  | .call operation args keywords => do
    let template ← scalarTemplate dialect operation
    let args ← denoteArgs I dialect row args
    let keywords ← denoteKeywords I dialect row keywords
    template.meaning I args keywords
  | _ => none

def denoteArgs (I : Interpretation V) (dialect : Dialect) (row : Row V) :
    List ColumnExpr → Option (List (Operand V))
  | [] => some []
  | a :: as => do
    return ⟨← a.denote I dialect row, a.text?⟩ :: (← denoteArgs I dialect row as)

def denoteKeywords (I : Interpretation V) (dialect : Dialect) (row : Row V) :
    List (String × ColumnExpr) → Option (List (String × Operand V))
  | [] => some []
  | (k, a) :: as => do
    return (k, ⟨← a.denote I dialect row, a.text?⟩) :: (← denoteKeywords I dialect row as)

end

mutual

/-- The operations that an expression calls. -/
def operations : ColumnExpr → List Operation
  | .reference => []
  | .attr parent _ => parent.operations
  | .call operation args keywords =>
    operation :: operationsOfArgs args ++ operationsOfKeywords keywords
  | .index parent key => parent.operations ++ key.operations
  | .slice start stop => operationsOfBound start ++ operationsOfBound stop
  | .literal _ => []

def operationsOfArgs : List ColumnExpr → List Operation
  | [] => []
  | a :: as => a.operations ++ operationsOfArgs as

def operationsOfKeywords : List (String × ColumnExpr) → List Operation
  | [] => []
  | (_, a) :: as => a.operations ++ operationsOfKeywords as

def operationsOfBound : Option ColumnExpr → List Operation
  | none => []
  | some a => a.operations

end

/-- Whether an expression calls row-wise operations of a dialect only. -/
def isRowWise (dialect : Dialect) (e : ColumnExpr) : Bool :=
  e.operations.all fun operation => (scalarTemplate dialect operation).isSome

end ColumnExpr

namespace Row

variable (I : Interpretation V) (dialect : Dialect)

/-- Projects and relabels by a list of output names with their sources. -/
def pick (selection : List (String × String)) (row : Row V) : Option (Row V) :=
  selection.mapM fun e => (row.lookup e.2).map fun value => (e.1, value)

def relabel (f : String → String) (row : Row V) : Row V := row.map fun c => (f c.1, c.2)

/-- Sets a column, in place or at the end, to the value of an expression on the row. -/
def set (column : String × ColumnExpr) (row : Row V) : Option (Row V) := do
  return putEntry column.1 (← column.2.shape.denote I dialect row) row

/-- Whether every predicate holds on a row. -/
def satisfies (predicates : List ColumnExpr) (row : Row V) : Option Bool := do
  let values ← predicates.mapM fun e => e.shape.denote I dialect row
  return values.all I.holds

end Row

/-- Rows that share their labels. -/
structure Relation (V : Type) where
  names : List String
  rows : List (Row V)

namespace Relation

variable (I : Interpretation V) (dialect : Dialect)

/-- A table as it is declared: each column under the name that exposes it. -/
def ofTable (table : TableInfo) (stored : List (String → V)) : Relation V where
  names := table.columns.keys
  rows := stored.map fun row => table.columns.entries.map fun c => (c.1, row c.2.name)

/-- Projects and relabels by a list of output names with their sources. -/
def pick (r : Relation V) (selection : List (String × String)) : Option (Relation V) := do
  return ⟨selection.map Prod.fst, ← r.rows.mapM (Row.pick selection)⟩

def relabel (r : Relation V) (f : String → String) : Relation V :=
  ⟨r.names.map f, r.rows.map (Row.relabel f)⟩

/-- Keeps the rows on which every predicate holds. -/
def restrict (r : Relation V) (predicates : List ColumnExpr) : Option (Relation V) := do
  return ⟨r.names, ← keepWhere (Row.satisfies I dialect predicates) r.rows⟩

/-- Sets one column. -/
def set (r : Relation V) (column : String × ColumnExpr) : Option (Relation V) := do
  return ⟨if column.1 ∈ r.names then r.names else r.names ++ [column.1],
    ← r.rows.mapM (Row.set I dialect column)⟩

/-- Sets columns one after another. -/
def setAll (r : Relation V) (columns : List (String × ColumnExpr)) : Option (Relation V) :=
  columns.foldlM (set I dialect) r

/-- Keeps the first of equal rows. -/
def unique [DecidableEq V] (r : Relation V) : Relation V := { r with rows := r.rows.eraseDups }

def take (r : Relation V) (n : Nat) : Relation V := { r with rows := r.rows.take n }

end Relation

namespace Verb

variable [DecidableEq V] (I : Interpretation V) (dialect : Dialect)

/-- Whether a verb is row-wise and its expressions call row-wise operations of a dialect only. -/
def isRowWise (dialect : Dialect) : Verb → Bool
  | .select _ | .rename _ | .head _ => true
  | .filter predicates => predicates.all (ColumnExpr.isRowWise dialect)
  | .mutate columns => columns.values.all (ColumnExpr.isRowWise dialect)
  | .distinct _ computed _ => computed.values.all (ColumnExpr.isRowWise dialect)
  | _ => false

/-- What a row-wise verb does to rows. -/
def meaning (r : Relation V) : Verb → Option (Relation V)
  | .select columns => do
    let selectors ← (columns.mapM fun e => Selector.parse r.names e.shape).toOption
    r.pick (Selector.selection r.names selectors).entries
  | .rename columns => do
    let renames ← (QueryState.parseRenames r.names columns.entries).toOption
    return r.relabel (newName renames)
  | .filter predicates => r.restrict I dialect predicates
  | .mutate columns => r.setAll I dialect columns.entries
  | .distinct columns computed _ => do
    let given ← columns.mapM fun e => e.shape.simpleName?
    let r ← r.setAll I dialect computed.entries
    let named := (OrderedSet.ofList (given ++ computed.keys)).toList
    let names := if named.isEmpty then r.names else named
    return (← r.pick (names.map fun n => (n, n))).unique
  | .head n => some (r.take n.toNat)
  | _ => none

end Verb

/-- What a row-wise pipeline does to rows, verb by verb. -/
def pipelineMeaning [DecidableEq V] (I : Interpretation V) (dialect : Dialect) (r : Relation V)
    (verbs : List Verb) : Option (Relation V) :=
  verbs.foldlM (Verb.meaning I dialect) r

end PipelineSql
