import PipelineSql.Compile.Window

/-!
# Compiling column expressions

Compilation threads the windows found so far from left to right. Labels are numbered by how many
there are, so the order in which arguments are compiled shows in the result.
-/

namespace PipelineSql

open Sql (Expr)

/-- Everything that compiling an expression looks things up in. -/
structure CompileEnv where
  functions : FunctionTable
  scope : Scope
  windows : WindowContext := {}

namespace CompileEnv

/-- Finishes a call whose arguments are compiled. Window functions cannot be nested, so one whose
arguments contain another is refused. -/
def finishCall (env : CompileEnv) (operation : Operation) (outer : Nat)
    (found : List LabelledWindow) : Except ArgumentFault Built →
    Except Error (Expr × List LabelledWindow)
  | .error fault => .error (.invalidArguments operation fault)
  | .ok (.expression e) => .ok (e, found)
  | .ok (.window call) =>
    if outer < found.length then .error (.notSupported (.nestedWindow operation))
    else .ok (env.windows.place env.scope found call)

/-- A column, or an expression that has no SQL form. -/
def compileName (env : CompileEnv) (found : List LabelledWindow) (e : ColumnExpr) :
    Except Error (Expr × List LabelledWindow) :=
  match e.simpleName? with
  | some name => (env.scope.lookup name).map fun column => (column, found)
  | none => .error (.notSupported (.expression e))

mutual

/-- Compiles an expression. `found` holds the windows labelled so far and comes back extended. -/
def compileFrom (env : CompileEnv) (mode : Mode) (found : List LabelledWindow) :
    ColumnExpr → Except Error (Expr × List LabelledWindow)
  | .literal value => .ok (.value value, found)
  | .call operation args keywords => do
    let builder ← env.functions.lookup operation mode
    let (args, afterArgs) ← compileArgs env mode found args
    let (keywords, afterKeywords) ← compileKeywords env mode afterArgs keywords
    env.finishCall operation found.length afterKeywords (builder ⟨args, keywords⟩)
  | .reference => env.compileName found .reference
  | .attr parent name => env.compileName found (.attr parent name)
  | .index parent key => env.compileName found (.index parent key)
  | .slice start stop => env.compileName found (.slice start stop)

/-- Compiles positional arguments from left to right. -/
def compileArgs (env : CompileEnv) (mode : Mode) (found : List LabelledWindow) :
    List ColumnExpr → Except Error (List Expr × List LabelledWindow)
  | [] => .ok ([], found)
  | a :: as => do
    let (e, found) ← compileFrom env mode found a
    let (es, found) ← compileArgs env mode found as
    return (e :: es, found)

/-- Compiles keyword arguments in the order of their keywords. -/
def compileKeywords (env : CompileEnv) (mode : Mode) (found : List LabelledWindow) :
    List (String × ColumnExpr) → Except Error (List (String × Expr) × List LabelledWindow)
  | [] => .ok ([], found)
  | (k, a) :: as => do
    let (e, found) ← compileFrom env mode found a
    let (es, found) ← compileKeywords env mode found as
    return ((k, e) :: es, found)

end

/-- Compiles one expression, with the windows labelled in it. -/
def compile (env : CompileEnv) (mode : Mode) (e : ColumnExpr) :
    Except Error (Expr × List LabelledWindow) :=
  env.compileFrom mode [] e

/-- Compiles several expressions whose windows share one sequence of labels. -/
def compileAll (env : CompileEnv) (mode : Mode) (es : List ColumnExpr) :
    Except Error (List Expr × List LabelledWindow) :=
  env.compileArgs mode [] es

/-- Compiles one expression and forgets its windows. -/
def compileExpr (env : CompileEnv) (mode : Mode) (e : ColumnExpr) : Except Error Expr :=
  (env.compile mode e).map Prod.fst

end CompileEnv

end PipelineSql
