import PipelineSql.Proofs.RowEvaluation
import PipelineSql.Proofs.Windows

/-!
# Groups of rows

What a statement with `GROUP BY` means on rows, and what a summary does to rows. An aggregate is an
arbitrary function of the values that its argument has on the rows of a group; whatever else stands
in a select list combines aggregates and the columns that are grouped by.
-/

namespace PipelineSql

open Sql (Expr ColumnRef TableRef aggregateNames)

variable {V : Type}

/-- How the values of an argument on the rows of a group become one value. -/
structure Aggregates (V : Type) where
  function : String → List V → V
  countAll : Nat → V
  count : List V → V
  countDistinct : List V → V

/-- The keys of a list, in the order of their first places, each with the members that have it. -/
def groupsOf {κ α : Type} [DecidableEq κ] (l : List (κ × α)) : List (κ × List α) :=
  (l.map Prod.fst).eraseDups.map fun k => (k, (l.filter fun m => m.1 = k).map Prod.snd)

/-- The members of a list in groups by a key, where each of them has one. -/
def groupsBy {κ α : Type} [DecidableEq κ] (key : α → Option κ) (l : List α) :
    Option (List (κ × List α)) := do
  return groupsOf (← l.mapM fun a => do return (← key a, a))

namespace Sql

/-- The value of a column, where it is what is grouped by. -/
def groupValue? (r : ColumnRef) : Expr × V → Option V
  | (.column c, v) => if c = r then some v else none
  | _ => none

/-- The columns that are grouped by, with the values that they have in a group. Other columns have
no value in it. -/
def groupEnv (groupBy : List Expr) (key : List V) : Env V := fun r =>
  (groupBy.zip key).findSome? (groupValue? r)

namespace Expr

mutual

/-- The value of an expression in a group, whose rows are `members`. -/
def evalGroup (A : Aggregates V) (I : Interpretation V) (keys : Env V) (members : List (Env V)) :
    Expr → Option V
  | .and l r => do
    return I.and (← l.evalGroup A I keys members) (← r.evalGroup A I keys members)
  | .or l r => do
    return I.or (← l.evalGroup A I keys members) (← r.evalGroup A I keys members)
  | .not e => do return I.not (← e.evalGroup A I keys members)
  | .binary l symbol r => do
    return I.binary symbol (← l.evalGroup A I keys members) (← r.evalGroup A I keys members)
  | .isIn e es => do
    return I.isIn (← e.evalGroup A I keys members) (← evalGroupList A I keys members es)
  | .isNull e => do return I.isNull (← e.evalGroup A I keys members)
  | .isNotNull e => do return I.isNotNull (← e.evalGroup A I keys members)
  | .negate e => do return I.negate (← e.evalGroup A I keys members)
  | .call f args =>
    if f ∈ aggregateNames then
      match args with
      | [e] => do return A.function f (← members.mapM fun env => e.eval I env)
      | _ => none
    else do return I.call f (← evalGroupList A I keys members args)
  | .case whens otherwise => do
    return I.case (← evalGroupWhens A I keys members whens)
      (← evalGroupOption A I keys members otherwise)
  | .window _ _ => none
  | .column r => keys r
  | .value v => some (I.literal v)
  | .cast e type => do return I.cast type (← e.evalGroup A I keys members)
  | .countAll => some (A.countAll members.length)
  | .count e => do return A.count (← members.mapM fun env => e.eval I env)
  | .countDistinct e => do return A.countDistinct (← members.mapM fun env => e.eval I env)

def evalGroupList (A : Aggregates V) (I : Interpretation V) (keys : Env V)
    (members : List (Env V)) : List Expr → Option (List V)
  | [] => some []
  | e :: es => do
    return (← e.evalGroup A I keys members) :: (← evalGroupList A I keys members es)

def evalGroupWhens (A : Aggregates V) (I : Interpretation V) (keys : Env V)
    (members : List (Env V)) : List (Expr × Expr) → Option (List (V × V))
  | [] => some []
  | (c, e) :: rest => do
    return (← c.evalGroup A I keys members, ← e.evalGroup A I keys members) ::
      (← evalGroupWhens A I keys members rest)

def evalGroupOption (A : Aggregates V) (I : Interpretation V) (keys : Env V)
    (members : List (Env V)) : Option Expr → Option (Option V)
  | none => some none
  | some e => do return some (← e.evalGroup A I keys members)

end

end Expr

namespace Select

/-- The select list in a group. -/
def evalGroupColumns (A : Aggregates V) (I : Interpretation V) (columns : List (String × Expr))
    (keys : Env V) (members : List (Env V)) : Option (Row V) :=
  columns.mapM fun c => do return (c.1, ← c.2.evalGroup A I keys members)

/-- Whether a query groups its rows: it has groups, and joins and orders nothing. -/
def isGrouped (q : Select) : Bool := q.joins.isEmpty && !q.groupBy.isEmpty && q.orderBy.isEmpty

/-- The rows of a statement that groups. The rows of the source that meet the condition are
partitioned by the values of the expressions that are grouped by, and each group gives one row.
Groups come in the order of their first rows, where SQL promises none. -/
def groupedRows [DecidableEq V] (A : Aggregates V) (I : Interpretation V)
    (db : TableRef → List (String → V)) (q : Select) : Option (List (Row V)) :=
  if q.isGrouped then do
    let groups ← groupsBy (fun env => q.groupBy.mapM (Expr.eval I env)) (← q.matching I db)
    let rows ← groups.mapM fun g =>
      evalGroupColumns A I q.columns (groupEnv q.groupBy g.1) g.2
    return q.cut rows
  else none

end Select

end Sql

/-- What the templates of aggregates do with the values of their arguments on the rows of a group,
of which there are `size`. -/
def Template.aggregate (A : Aggregates V) (size : Nat) : Template → List (List V) → Option V
  | .function name, [values] => some (A.function name values)
  | .countRows, [] => some (A.countAll size)
  | .countRows, [_] => some (A.countAll size)
  | .countDistinct, [values] => some (A.countDistinct values)
  | _, _ => none

namespace ColumnExpr

mutual

/-- The value of an expression in a group. A column has the value that the rows of the group share,
an aggregate is taken over the values of its arguments on these rows, and row-wise operations
combine them. -/
def denoteGroup (A : Aggregates V) (I : Interpretation V) (dialect : Dialect) (key : Row V)
    (members : List (Row V)) : ColumnExpr → Option V
  | .literal v => some (I.literal v)
  | .attr .reference name => key.lookup name
  | .index .reference (.literal (.str name)) => key.lookup name
  | .call operation args keywords =>
    match scalarTemplate dialect operation with
    | some template => do
      let args ← denoteGroupArgs A I dialect key members args
      let keywords ← denoteGroupKeywords A I dialect key members keywords
      template.meaning I args keywords
    | none => do
      let template ← aggregateTemplate dialect operation
      let values ← args.mapM fun a => members.mapM fun row => a.denote I dialect row
      template.aggregate A members.length values
  | _ => none

def denoteGroupArgs (A : Aggregates V) (I : Interpretation V) (dialect : Dialect) (key : Row V)
    (members : List (Row V)) : List ColumnExpr → Option (List (Operand V))
  | [] => some []
  | a :: as => do
    return ⟨← a.denoteGroup A I dialect key members, a.text?⟩ ::
      (← denoteGroupArgs A I dialect key members as)

def denoteGroupKeywords (A : Aggregates V) (I : Interpretation V) (dialect : Dialect)
    (key : Row V) (members : List (Row V)) :
    List (String × ColumnExpr) → Option (List (String × Operand V))
  | [] => some []
  | (k, a) :: as => do
    return (k, ⟨← a.denoteGroup A I dialect key members, a.text?⟩) ::
      (← denoteGroupKeywords A I dialect key members as)

end

mutual

/-- Whether row-wise operations of a dialect combine literals, columns that are grouped by and
aggregates of row-wise arguments into an expression. -/
def isSummary (dialect : Dialect) (groups : List String) : ColumnExpr → Bool
  | .literal _ => true
  | .attr .reference name => name ∈ groups
  | .index .reference (.literal (.str name)) => name ∈ groups
  | .call operation args keywords =>
    if (scalarTemplate dialect operation).isSome then
      isSummaryArgs dialect groups args && isSummaryKeywords dialect groups keywords
    else (aggregateTemplate dialect operation).isSome && args.all (isRowWise dialect)
  | _ => false

def isSummaryArgs (dialect : Dialect) (groups : List String) : List ColumnExpr → Bool
  | [] => true
  | a :: as => a.isSummary dialect groups && isSummaryArgs dialect groups as

def isSummaryKeywords (dialect : Dialect) (groups : List String) :
    List (String × ColumnExpr) → Bool
  | [] => true
  | (_, a) :: as => a.isSummary dialect groups && isSummaryKeywords dialect groups as

end

end ColumnExpr

/-- The values of columns on a row. -/
def Row.values (names : List String) (row : Row V) : Option (List V) := names.mapM fun n => row.lookup n

/-- The row of a group: its grouping columns and then new ones. -/
def Row.summary (A : Aggregates V) (I : Interpretation V) (dialect : Dialect)
    (columns : List (String × ColumnExpr)) (key : Row V) (members : List (Row V)) :
    Option (Row V) := do
  return key ++ (← columns.mapM fun c => do
    return (c.1, ← c.2.shape.denoteGroup A I dialect key members))

/-- The rows of a summary, in any order: one row for each combination of values that the grouping
columns have on some row, computed from the rows with these values. -/
structure SummaryRows [DecidableEq V] (A : Aggregates V) (I : Interpretation V) (dialect : Dialect)
    (groups : List String) (columns : List (String × ColumnExpr)) (previous rows : List (Row V)) :
    Prop where
  nodup : (rows.map (Row.values groups)).Nodup
  keys : ∀ key, (∃ row ∈ rows, row.values groups = some key) ↔
    ∃ row ∈ previous, row.values groups = some key
  summary : ∀ row ∈ rows, ∃ key, row.values groups = some key ∧
    Row.summary A I dialect columns (groups.zip key)
      (previous.filter fun row => row.values groups = some key) = some row

end PipelineSql
