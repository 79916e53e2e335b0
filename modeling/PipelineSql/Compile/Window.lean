import PipelineSql.Compile.Scope
import PipelineSql.Data.Fresh
import PipelineSql.Function.Table

/-!
# Placing window functions

A window function is completed from the grouping and the ordering of the query and given a label.
Where SQL allows it the function stays in the expression, elsewhere the label stands for it.
-/

namespace PipelineSql

open Sql (Expr Ordered Over TableAlias)

/-- A complete window function and the label given to it. -/
structure LabelledWindow where
  label : String
  expression : Expr

/-- Where window functions go. -/
inductive Placement where
  /-- Into the expression, where they appear. -/
  | inPlace
  /-- Into a stage of their own, read through a table by their labels. -/
  | hoisted (table : TableAlias)
deriving DecidableEq

/-- The grouping and the ordering from which `OVER` clauses are built. -/
structure WindowContext where
  partitionBy : List Expr := []
  orderBy : List (Ordered Expr) := []
  placement : Placement := .inPlace

/-- The label `win1`, `win2`, … after the windows found so far, skipping names in use. -/
def freshLabel (scope : Scope) (found : List LabelledWindow) : String :=
  firstFree (scope.names ++ found.map LabelledWindow.label) fun i =>
    "win" ++ toString (found.length + 1 + i)

namespace WindowContext

/-- The `OVER` clause of a window function. -/
def overClause (c : WindowContext) : WindowKind → Over Expr
  | .aggregate => { partitionBy := c.partitionBy }
  | .ranking (some term) => { partitionBy := c.partitionBy, orderBy := [term] }
  | .ranking none => { partitionBy := c.partitionBy, orderBy := c.orderBy }
  | .cumulative =>
    { partitionBy := c.partitionBy, orderBy := c.orderBy
      frame := some ⟨.unboundedPreceding, .currentRow⟩ }

/-- Completes a window function, labels it, and gives what stands for it in the expression. -/
def place (c : WindowContext) (scope : Scope) (found : List LabelledWindow) (call : WindowCall) :
    Expr × List LabelledWindow :=
  let expression := Expr.window call.function (c.overClause call.kind)
  let label := freshLabel scope found
  let visible := match c.placement with
    | .inPlace => expression
    | .hoisted table => .labelled table label
  (visible, found ++ [⟨label, expression⟩])

end WindowContext

end PipelineSql
