import PipelineSql.Json.Basic
import PipelineSql.Number.Layout

namespace PipelineSql

namespace Json

/-- Numbers in JSON: positional from `0.00001` up to sixteen places before the point, and a sign
before every exponent. -/
def numberLayout : NumberLayout where
  leastPoint := -4
  greatestPoint := 16
  positiveExponent := "+"
  tie := .toEven
  notANumber := "null"
  positiveInfinity := "null"
  negativeInfinity := "null"

/-- A digit of the four-digit escape. -/
def hexDigit (n : Nat) : Char := Nat.digitChar (n % 16)

/-- One character inside a text: quotes, backslashes and control characters are escaped. -/
def escapeChar (c : Char) : List Char :=
  if c = '"' then ['\\', '"']
  else if c = '\\' then ['\\', '\\']
  else if c = '\x08' then ['\\', 'b']
  else if c = '\x0c' then ['\\', 'f']
  else if c = '\n' then ['\\', 'n']
  else if c = '\r' then ['\\', 'r']
  else if c = '\t' then ['\\', 't']
  else if c.toNat < 32 then ['\\', 'u', '0', '0', hexDigit (c.toNat / 16), hexDigit c.toNat]
  else [c]

/-- A text in quotes. -/
def quote (s : String) : String :=
  "\"" ++ String.ofList (s.toList.flatMap escapeChar) ++ "\""

/-- A value that is no container. What could not be read is written as `null`. -/
def scalarText : Json → String
  | .null | .unreadable => "null"
  | .bool true => "true"
  | .bool false => "false"
  | .int i => toString i
  | .float x => numberLayout.write x
  | .str s => quote s
  | .arr _ => "[]"
  | .obj _ => "\x7b\x7d"

mutual

/-- The text of a value without any blanks. -/
def compact : Json → String
  | .arr [] => "[]"
  | .arr (a :: as) => "[" ++ a.compact ++ compactItems as ++ "]"
  | .obj [] => "\x7b\x7d"
  | .obj ((k, a) :: as) => "\x7b" ++ quote k ++ ":" ++ a.compact ++ compactFields as ++ "\x7d"
  | v => scalarText v

/-- Further items of an array, each after a comma. -/
def compactItems : List Json → String
  | [] => ""
  | a :: as => "," ++ a.compact ++ compactItems as

/-- Further fields of an object, each after a comma. -/
def compactFields : List (String × Json) → String
  | [] => ""
  | (k, a) :: as => "," ++ quote k ++ ":" ++ a.compact ++ compactFields as

end

/-- A new line at a depth of two blanks a level. -/
def newLine (depth : Nat) : String := "\n" ++ String.ofList (List.replicate (2 * depth) ' ')

mutual

/-- The text of a value over several lines, at the given depth. -/
def pretty (depth : Nat) : Json → String
  | .arr [] => "[]"
  | .arr (a :: as) =>
    "[" ++ newLine (depth + 1) ++ a.pretty (depth + 1) ++ prettyItems (depth + 1) as ++
      newLine depth ++ "]"
  | .obj [] => "\x7b\x7d"
  | .obj ((k, a) :: as) =>
    "\x7b" ++ newLine (depth + 1) ++ quote k ++ ": " ++ a.pretty (depth + 1) ++
      prettyFields (depth + 1) as ++ newLine depth ++ "\x7d"
  | v => scalarText v

/-- Further items, each on a line of its own. -/
def prettyItems (depth : Nat) : List Json → String
  | [] => ""
  | a :: as => "," ++ newLine depth ++ a.pretty depth ++ prettyItems depth as

/-- Further fields, each on a line of its own. -/
def prettyFields (depth : Nat) : List (String × Json) → String
  | [] => ""
  | (k, a) :: as =>
    "," ++ newLine depth ++ quote k ++ ": " ++ a.pretty depth ++ prettyFields depth as

end

end Json

end PipelineSql
