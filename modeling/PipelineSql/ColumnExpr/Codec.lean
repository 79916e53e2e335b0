import PipelineSql.ColumnExpr.Basic
import PipelineSql.Data.SortedEntries
import PipelineSql.Json.Decode

/-!
# Column expressions in JSON

Writing and reading are structural on both sides. Keyword arguments are sorted when they are
read, so that a tree has one written form. Where forms are free, the parts of an expression can
also be listed by position.
-/

namespace PipelineSql

namespace Literal

def toJson : Literal → Json
  | .null => .null
  | .bool b => .bool b
  | .int i => .int i.toInt
  | .float x => Json.ofDouble x
  | .str s => .str s

/-- Reads a constant. Integers of 64 bits with a sign stay integers, other numbers are doubles. -/
def ofJson? : Json → Option Literal
  | .null => some .null
  | .bool b => some (.bool b)
  | .int i =>
    match (Json.int i).int64? with
    | some n => some (.int n)
    | none => some (.float (Double.ofInt i))
  | .float x => some (.float x)
  | .str s => some (.str s)
  | _ => none

end Literal

namespace ColumnExpr

/-- An object with one field. -/
def tagged (tag : String) (body : Json) : Json := .obj [(tag, body)]

mutual

/-- The JSON form of an expression: an object whose single field says what it is. A column has a
form of its own, and the table itself is a bare word. -/
def toJson : ColumnExpr → Json
  | .reference => .str "reference"
  | .attr .reference name => tagged "column" (.str name)
  | .attr parent name => tagged "attribute" (.obj [("parent", parent.toJson), ("name", .str name)])
  | .call operation args [] =>
    tagged "call" (.obj [("operation", .str operation.name), ("args", .arr (argsToJson args))])
  | .call operation args (k :: ks) =>
    tagged "call" (.obj [("operation", .str operation.name), ("args", .arr (argsToJson args)),
      ("kwargs", .obj (keywordsToJson (k :: ks)))])
  | .index parent key => tagged "index" (.obj [("parent", parent.toJson), ("key", key.toJson)])
  | .slice start stop =>
    tagged "slice" (.obj [("start", boundToJson start), ("stop", boundToJson stop)])
  | .literal value => tagged "literal" value.toJson

def argsToJson : List ColumnExpr → List Json
  | [] => []
  | a :: as => a.toJson :: argsToJson as

def keywordsToJson : List (String × ColumnExpr) → List (String × Json)
  | [] => []
  | (k, a) :: as => (k, a.toJson) :: keywordsToJson as

def boundToJson : Option ColumnExpr → Json
  | none => .null
  | some a => a.toJson

end

def operationOfJson? (v : Json) : Option Operation := v.str?.bind Operation.ofName?

mutual

/-- Reads an expression. An object must have exactly one field; fields that its body does not know
are skipped, and those that it knows may stand once. -/
def ofJson? (manner : Json.Manner) : Json → Option ColumnExpr
  | .str s => if s = "reference" then some .reference else none
  | .obj [(tag, .obj fields)] =>
    if tag = "reference" then
      if manner = .free ∧ fields = [] then some .reference else none
    else if tag = "attribute" then do
      let parent ← exprField? manner "parent" fields
      let name ← Json.required? fields "name" Json.str?
      return .attr (← parent) name
    else if tag = "call" then do
      let operation ← Json.required? fields "operation" operationOfJson?
      let args ← argsField? manner "args" fields
      let keywords ← keywordsField? manner "kwargs" fields
      return .call operation args (sortEntries keywords)
    else if tag = "index" then do
      let parent ← exprField? manner "parent" fields
      let key ← exprField? manner "key" fields
      return .index (← parent) (← key)
    else if tag = "slice" then do
      return .slice (← boundField? manner "start" fields) (← boundField? manner "stop" fields)
    else none
  | .obj [(tag, .arr parts)] => if manner = .free then ofParts? manner tag parts else none
  | .obj [(tag, body)] =>
    if tag = "reference" then (if body = .null then some .reference else none)
    else if tag = "column" then body.str?.map column
    else if tag = "literal" then (Literal.ofJson? body).map .literal
    else none
  | _ => none

/-- Reads an expression whose parts are listed in their order. Parts that have a default can be
left out at the end. -/
def ofParts? (manner : Json.Manner) (tag : String) : List Json → Option ColumnExpr
  | [] => if tag = "slice" then some (.slice none none) else none
  | [a] =>
    if tag = "call" then (operationOfJson? a).map fun operation => .call operation [] []
    else if tag = "slice" then do
      return .slice (← Json.nullable? (fun _ => ofJson? manner a) a) none
    else none
  | [a, b] =>
    if tag = "attribute" then do return .attr (← ofJson? manner a) (← b.str?)
    else if tag = "call" then do return .call (← operationOfJson? a) (← argsOf? manner b) []
    else if tag = "index" then do return .index (← ofJson? manner a) (← ofJson? manner b)
    else if tag = "slice" then do
      let start ← Json.nullable? (fun _ => ofJson? manner a) a
      let stop ← Json.nullable? (fun _ => ofJson? manner b) b
      return .slice start stop
    else none
  | [a, b, c] =>
    if tag = "call" then do
      let keywords ← keywordsOf? manner c
      return .call (← operationOfJson? a) (← argsOf? manner b) (sortEntries keywords)
    else none
  | _ => none

/-- An optional field that holds an expression. Fails when it holds something else or is
repeated. -/
def exprField? (manner : Json.Manner) (name : String) :
    List (String × Json) → Option (Option ColumnExpr)
  | [] => some none
  | (k, v) :: rest =>
    if k = name then
      if Json.hasField name rest then none else (ofJson? manner v).map some
    else exprField? manner name rest

/-- A field that holds an expression, `null` or is absent. -/
def boundField? (manner : Json.Manner) (name : String) :
    List (String × Json) → Option (Option ColumnExpr)
  | [] => some none
  | (k, v) :: rest =>
    if k = name then
      if Json.hasField name rest then none else Json.nullable? (fun _ => ofJson? manner v) v
    else boundField? manner name rest

/-- A field that holds a list of expressions, empty when it is absent. -/
def argsField? (manner : Json.Manner) (name : String) :
    List (String × Json) → Option (List ColumnExpr)
  | [] => some []
  | (k, v) :: rest =>
    if k = name then
      if Json.hasField name rest then none else argsOf? manner v
    else argsField? manner name rest

/-- A field that holds named expressions, empty when it is absent. -/
def keywordsField? (manner : Json.Manner) (name : String) :
    List (String × Json) → Option (List (String × ColumnExpr))
  | [] => some []
  | (k, v) :: rest =>
    if k = name then
      if Json.hasField name rest then none else keywordsOf? manner v
    else keywordsField? manner name rest

/-- A list of expressions. -/
def argsOf? (manner : Json.Manner) : Json → Option (List ColumnExpr)
  | .arr items => listOfJson? manner items
  | _ => none

/-- An object whose values are expressions. -/
def keywordsOf? (manner : Json.Manner) : Json → Option (List (String × ColumnExpr))
  | .obj entries => entriesOfJson? manner entries
  | _ => none

def listOfJson? (manner : Json.Manner) : List Json → Option (List ColumnExpr)
  | [] => some []
  | v :: rest => do return (← ofJson? manner v) :: (← listOfJson? manner rest)

def entriesOfJson? (manner : Json.Manner) :
    List (String × Json) → Option (List (String × ColumnExpr))
  | [] => some []
  | (k, v) :: rest => do return (k, ← ofJson? manner v) :: (← entriesOfJson? manner rest)

end

end ColumnExpr

end PipelineSql
