import PipelineSql.Json.Token

/-!
# Reading JSON

The reader is a fold over the words of the text with a stack of open containers, which also tells
how deep a container is nested. What has no value stays in its place as `unreadable`: only the
grammar decides whether a text is read at all.
-/

namespace PipelineSql.Json

/-- A container that is not yet closed, with what it holds so far, last first. -/
inductive Frame where
  | array (items : List Json)
  | object (fields : List (Option String × Json)) (key : Option String)

/-- What the reader expects next. The open containers are listed innermost first. -/
inductive Expecting where
  /-- A value. -/
  | value (stack : List Frame)
  /-- A value, or the end of an array just opened. -/
  | firstItem (stack : List Frame)
  /-- A name, or the end of an object just opened. -/
  | firstKey (stack : List Frame)
  /-- A name after a comma. -/
  | key (stack : List Frame) (fields : List (Option String × Json))
  /-- The colon after a name. -/
  | colon (stack : List Frame) (fields : List (Option String × Json)) (key : Option String)
  /-- A comma or an end after a complete value. -/
  | ending (stack : List Frame) (value : Json)

/-- Reads the first word of a value. -/
def startValue (stack : List Frame) : Token → Option Expecting
  | .openArray => some (.firstItem stack)
  | .openObject => some (.firstKey stack)
  | .text value => some (.ending stack ((value.map Json.str).getD .unreadable))
  | .scalar value => some (.ending stack value)
  | _ => none

/-- An object from its fields, last first. Each of its names must have a value. -/
def objectOf (fields : List (Option String × Json)) : Json :=
  match fields.reverse.mapM fun f => f.1.map fun name => (name, f.2) with
  | some fields => .obj fields
  | none => .unreadable

/-- Ends a container inside the containers of a stack, of which there must be less than `limit`. -/
def close (limit : Nat) (stack : List Frame) (value : Json) : Expecting :=
  .ending stack (if stack.length < limit then value else .unreadable)

/-- Reads one word. -/
def Expecting.step (limit : Nat) : Expecting → Token → Option Expecting
  | .value stack, token => startValue stack token
  | .firstItem stack, .closeArray => some (close limit stack (.arr []))
  | .firstItem stack, token => startValue (.array [] :: stack) token
  | .firstKey stack, .closeObject => some (close limit stack (.obj []))
  | .firstKey stack, .text name => some (.colon stack [] name)
  | .key stack fields, .text name => some (.colon stack fields name)
  | .colon stack fields name, .colon => some (.value (.object fields name :: stack))
  | .ending (.array items :: stack) v, .comma => some (.value (.array (v :: items) :: stack))
  | .ending (.array items :: stack) v, .closeArray =>
    some (close limit stack (.arr (v :: items).reverse))
  | .ending (.object fields name :: stack) v, .comma => some (.key stack ((name, v) :: fields))
  | .ending (.object fields name :: stack) v, .closeObject =>
    some (close limit stack (objectOf ((name, v) :: fields)))
  | _, _ => none

/-- The value read, once the input has ended. -/
def Expecting.finish : Expecting → Option Json
  | .ending [] v => some v
  | _ => none

/-- The nesting that a file may have. -/
def defaultLimit : Nat := 127

/-- Reads JSON text, in which containers may be nested `limit` deep. Blanks may stand around it and
nothing else. -/
def read? (text : String) (limit : Nat) : Option Json := do
  let tokens ← tokens? text
  let e ← tokens.foldlM (Expecting.step limit) (.value [])
  e.finish

end PipelineSql.Json
