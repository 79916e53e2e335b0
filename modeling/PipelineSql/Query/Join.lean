import PipelineSql.Query.State

/-!
# Joins

Both sides become subqueries of one statement, under aliases that neither of them uses.
-/

namespace PipelineSql

open Sql (Expr Select)

/-- Which rows a join keeps. -/
inductive JoinKind where
  | inner
  | left
  | right
  | full
deriving DecidableEq, Inhabited

namespace JoinKind

def name : JoinKind → String
  | .inner => "inner"
  | .left => "left"
  | .right => "right"
  | .full => "full"

def ofName? : String → Option JoinKind
  | "inner" => some .inner
  | "left" => some .left
  | "right" => some .right
  | "full" => some .full
  | _ => none

/-- The kind of a name, or why there is none. -/
def parse (how : String) : Except Error JoinKind :=
  match ofName? how with
  | some kind => .ok kind
  | none => .error (.invalidVerb (.unknownJoinKind how))

/-- The SQL join of a kind; a right join is a left join with its sides swapped. -/
def sqlType : JoinKind → Sql.JoinType
  | .inner => .inner
  | .left => .leftOuter
  | .right => .leftOuter
  | .full => .fullOuter

/-- The value of a key that has the same name on both sides: that of a side which always has a
row. -/
def sharedKey (left right : Expr) : JoinKind → Expr
  | .inner => left
  | .left => left
  | .right => right
  | .full => .coalesce [left, right]

end JoinKind

/-- The key columns of a join. -/
inductive JoinKeys where
  /-- Columns with the same name on both sides. -/
  | columns (names : List String)
  /-- Columns of the left side, and those of the right side that they equal. -/
  | pairs (names : OrderedMap String)
deriving DecidableEq

/-- Left and right column of each key. -/
def JoinKeys.toPairs : JoinKeys → List (String × String)
  | .columns names => names.map fun n => (n, n)
  | .pairs names => names.entries

namespace QueryState

/-- Equality of all keys. -/
def joinCondition (left right : Scope) (keys : List (String × String)) : Except Error Expr := do
  let equations ← keys.mapM fun k => do
    return Expr.equals (← left.lookup k.1) (← right.lookup k.2)
  return Expr.conjunction equations

/-- Joins two queries on equal keys. The columns of the left side come first. A key with the same
name on both sides appears once; other names that both sides have are told apart by the endings
`_x` and `_y`. -/
def join (s t : QueryState) (keys : JoinKeys) (kind : JoinKind) : Except Error QueryState := do
  if s.dialect ≠ t.dialect then throw (.invalidVerb (.dialectsDiffer s.dialect t.dialect))
  let pairs := keys.toPairs
  if pairs.isEmpty then throw (.invalidVerb .noKeyColumns)
  let (lhs, aliases) := (s.aliases.merge t.aliases).make "lhs"
  let (rhs, aliases) := aliases.make "rhs"
  let left := Scope.ofSubquery s.last lhs
  let right := Scope.ofSubquery t.last rhs
  let condition ← joinCondition left right pairs
  let isShared := fun (n : String) => pairs.any fun p => p.1 = p.2 && p.1 = n
  let clashes := fun (n : String) => n ∈ s.columnNames && n ∈ t.columnNames && !isShared n
  let leftList ← s.columnNames.mapM fun n => do
    let column ← left.lookup n
    if isShared n then
      let other ← right.lookup n
      return (n, kind.sharedKey column other)
    else return (if clashes n then n ++ "_x" else n, column)
  let rightList ← (t.columnNames.filter fun n => !isShared n).mapM fun n => do
    return (if clashes n then n ++ "_y" else n, ← right.lookup n)
  let list := leftList ++ rightList
  let select : Select := match kind with
    | .right =>
      { Select.reading list t.last rhs with joins := [⟨kind.sqlType, s.last, lhs, condition⟩] }
    | _ => { Select.reading list s.last lhs with joins := [⟨kind.sqlType, t.last, rhs, condition⟩] }
  return s.pushWith select aliases (s.groups.filter fun g => g ∈ list.map Prod.fst) []

end QueryState

end PipelineSql
