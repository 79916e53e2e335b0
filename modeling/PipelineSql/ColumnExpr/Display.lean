import PipelineSql.ColumnExpr.Basic

namespace PipelineSql

/-- A constant as it is shown to people. -/
def Literal.display : Literal → String
  | .null => "None"
  | .bool true => "True"
  | .bool false => "False"
  | .int i => intText i
  | .float x => floatText x
  | .str s => "'" ++ s ++ "'"

namespace ColumnExpr

/-- How a call is shown, given the texts of its arguments: an infix operation with two of them
stands between them, a negation before its operand, and all else takes the form of a function. -/
def displayCall (operation : Operation) (args keywords : List String) : String :=
  let function := operation.name ++ "(" ++ ", ".intercalate (args ++ keywords) ++ ")"
  match args with
  | [operand] => if operation = .negate then "-" ++ operand else function
  | [left, right] =>
    match operation.sign? with
    | some sign => left ++ " " ++ sign ++ " " ++ right
    | none => function
  | _ => function

mutual

/-- The expression the way a user would write it, columns by their bare names. -/
def display : ColumnExpr → String
  | .reference => "_"
  | .attr .reference name => name
  | .attr parent name => parent.display ++ "." ++ name
  | .call operation args keywords =>
    displayCall operation (displayArgs args) (displayKeywords keywords)
  | .index .reference (.literal (.str name)) => name
  | .index parent key => parent.display ++ "[" ++ key.display ++ "]"
  | .slice start stop => displayBound start ++ ":" ++ displayBound stop
  | .literal value => value.display

def displayArgs : List ColumnExpr → List String
  | [] => []
  | a :: as => a.display :: displayArgs as

def displayKeywords : List (String × ColumnExpr) → List String
  | [] => []
  | (k, a) :: as => (k ++ "=" ++ a.display) :: displayKeywords as

/-- The text of the bound of a run, empty when there is none. -/
def displayBound : Option ColumnExpr → String
  | none => ""
  | some a => a.display

end

end ColumnExpr

end PipelineSql
