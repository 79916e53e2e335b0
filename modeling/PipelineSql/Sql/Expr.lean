import PipelineSql.Literal

/-!
# SQL expressions

The scalar part of the statements that are built. Binary operations and functions are named by
their SQL text; everything a user supplies is a literal or a column name.
-/

namespace PipelineSql.Sql

/-- The direction of one ordering term. -/
inductive Direction where
  | asc
  | desc
deriving DecidableEq, Inhabited

/-- Something to order by, and in which direction. -/
structure Ordered (α : Type) where
  target : α
  direction : Direction
deriving DecidableEq

/-- A name given to a relation, told apart from others of the same name by a number. -/
structure TableAlias where
  name : String
  index : Nat
deriving DecidableEq, Inhabited

/-- What a query reads columns from. -/
inductive TableRef where
  /-- A table of the database, perhaps in a schema. -/
  | stored (schema : Option String) (table : String)
  /-- A relation of the same statement. -/
  | aliased (tableAlias : TableAlias)
deriving DecidableEq

/-- A reference to a column. -/
inductive ColumnRef where
  /-- A column by its name in the database. -/
  | stored (table : TableRef) (name : String)
  /-- A column by the label that a query gave it. -/
  | labelled (table : TableRef) (label : String)
deriving DecidableEq

/-- The name under which a reference exposes its column. -/
def ColumnRef.name : ColumnRef → String
  | .stored _ name => name
  | .labelled _ label => label

/-- One end of a window frame. -/
inductive FrameBound where
  | unboundedPreceding
  | currentRow
deriving DecidableEq

/-- The rows around the current one that a window function sees. -/
structure Frame where
  first : FrameBound
  last : FrameBound
deriving DecidableEq

/-- The partitions, the ordering and the frame of a window function. -/
structure Over (α : Type) where
  partitionBy : List α := []
  orderBy : List (Ordered α) := []
  frame : Option Frame := none

/-- A scalar SQL expression. -/
inductive Expr where
  | and (left right : Expr)
  | or (left right : Expr)
  | not (operand : Expr)
  | binary (left : Expr) (operator : String) (right : Expr)
  | isIn (operand : Expr) (values : List Expr)
  | isNull (operand : Expr)
  | isNotNull (operand : Expr)
  | negate (operand : Expr)
  | call (function : String) (args : List Expr)
  | case (whens : List (Expr × Expr)) (otherwise : Option Expr)
  | window (function : Expr) (clause : Over Expr)
  | column (ref : ColumnRef)
  | value (literal : Literal)
  | cast (operand : Expr) (type : String)
  | countAll
  | count (operand : Expr)
  | countDistinct (operand : Expr)

namespace Expr

/-- The condition that holds of every row. -/
def always : Expr := .value (.bool true)

/-- The condition that holds of no row. -/
def never : Expr := .value (.bool false)

instance : Inhabited Expr := ⟨.always⟩

def text (s : String) : Expr := .value (.str s)

/-- The first argument that is not null. -/
def coalesce (args : List Expr) : Expr := .call "coalesce" args

/-- The column that an aliased relation exposes under a label. -/
def labelled (table : TableAlias) (label : String) : Expr :=
  .column (.labelled (.aliased table) label)

def equals (left right : Expr) : Expr := .binary left "=" right

/-- All conditions at once, joined from the left; no condition at all holds of every row. -/
def conjunction : List Expr → Expr
  | [] => .always
  | e :: es => es.foldl .and e

/-- Whether an expression is the condition that always holds. -/
def isTrue : Expr → Bool
  | .value (.bool b) => b
  | _ => false

/-- Whether an expression refers to a column that already has the given name. -/
def exposes (name : String) : Expr → Bool
  | .column ref => ref.name = name
  | _ => false

mutual

/-- Rebuilds an expression from its leaves up: `f` sees every node after its parts. -/
def mapNodes (f : Expr → Expr) : Expr → Expr
  | .and l r => f (.and (l.mapNodes f) (r.mapNodes f))
  | .or l r => f (.or (l.mapNodes f) (r.mapNodes f))
  | .not e => f (.not (e.mapNodes f))
  | .binary l op r => f (.binary (l.mapNodes f) op (r.mapNodes f))
  | .isIn e es => f (.isIn (e.mapNodes f) (mapList f es))
  | .isNull e => f (.isNull (e.mapNodes f))
  | .isNotNull e => f (.isNotNull (e.mapNodes f))
  | .negate e => f (.negate (e.mapNodes f))
  | .call name args => f (.call name (mapList f args))
  | .case whens otherwise => f (.case (mapWhens f whens) (mapOption f otherwise))
  | .window e ⟨partitionBy, orderBy, frame⟩ =>
    f (.window (e.mapNodes f) ⟨mapList f partitionBy, mapOrdered f orderBy, frame⟩)
  | .column ref => f (.column ref)
  | .value v => f (.value v)
  | .cast e type => f (.cast (e.mapNodes f) type)
  | .countAll => f .countAll
  | .count e => f (.count (e.mapNodes f))
  | .countDistinct e => f (.countDistinct (e.mapNodes f))

def mapList (f : Expr → Expr) : List Expr → List Expr
  | [] => []
  | e :: es => e.mapNodes f :: mapList f es

def mapWhens (f : Expr → Expr) : List (Expr × Expr) → List (Expr × Expr)
  | [] => []
  | (c, e) :: rest => (c.mapNodes f, e.mapNodes f) :: mapWhens f rest

def mapOption (f : Expr → Expr) : Option Expr → Option Expr
  | none => none
  | some e => some (e.mapNodes f)

def mapOrdered (f : Expr → Expr) : List (Ordered Expr) → List (Ordered Expr)
  | [] => []
  | ⟨e, d⟩ :: rest => ⟨e.mapNodes f, d⟩ :: mapOrdered f rest

end

mutual

/-- Whether a node of the expression passes a test. -/
def anyNode (p : Expr → Bool) : Expr → Bool
  | .and l r => p (.and l r) || l.anyNode p || r.anyNode p
  | .or l r => p (.or l r) || l.anyNode p || r.anyNode p
  | .not e => p (.not e) || e.anyNode p
  | .binary l op r => p (.binary l op r) || l.anyNode p || r.anyNode p
  | .isIn e es => p (.isIn e es) || e.anyNode p || anyList p es
  | .isNull e => p (.isNull e) || e.anyNode p
  | .isNotNull e => p (.isNotNull e) || e.anyNode p
  | .negate e => p (.negate e) || e.anyNode p
  | .call name args => p (.call name args) || anyList p args
  | .case whens otherwise => p (.case whens otherwise) || anyWhens p whens || anyOption p otherwise
  | .window e ⟨partitionBy, orderBy, frame⟩ =>
    p (.window e ⟨partitionBy, orderBy, frame⟩) || e.anyNode p || anyList p partitionBy ||
      anyOrdered p orderBy
  | .column ref => p (.column ref)
  | .value v => p (.value v)
  | .cast e type => p (.cast e type) || e.anyNode p
  | .countAll => p .countAll
  | .count e => p (.count e) || e.anyNode p
  | .countDistinct e => p (.countDistinct e) || e.anyNode p

def anyList (p : Expr → Bool) : List Expr → Bool
  | [] => false
  | e :: es => e.anyNode p || anyList p es

def anyWhens (p : Expr → Bool) : List (Expr × Expr) → Bool
  | [] => false
  | (c, e) :: rest => c.anyNode p || e.anyNode p || anyWhens p rest

def anyOption (p : Expr → Bool) : Option Expr → Bool
  | none => false
  | some e => e.anyNode p

def anyOrdered (p : Expr → Bool) : List (Ordered Expr) → Bool
  | [] => false
  | ⟨e, _⟩ :: rest => e.anyNode p || anyOrdered p rest

end

/-- One step of `replaceAlias`. -/
def replaceAliasNode (old new : TableAlias) : Expr → Expr
  | .column (.labelled (.aliased table) label) =>
    if table = old then labelled new label else labelled table label
  | e => e

/-- Points every labelled column of one aliased relation at another relation. -/
def replaceAlias (old new : TableAlias) (e : Expr) : Expr :=
  e.mapNodes (replaceAliasNode old new)

def isWindow : Expr → Bool
  | .window _ _ => true
  | _ => false

/-- Whether a window function occurs in an expression. -/
def containsWindow (e : Expr) : Bool := e.anyNode isWindow

end Expr

end PipelineSql.Sql
