namespace PipelineSql.Sql

/-- A piece of SQL text. Everything that a user supplies is an identifier, a quoted text or a
parameter, and never plain text. -/
inductive Fragment where
  /-- Keywords, operators, punctuation and numbers, as they are. -/
  | plain (text : String)
  /-- A name, in double quotes. -/
  | identifier (name : String)
  /-- A text, in single quotes. -/
  | quoted (text : String)
  /-- A text that is either bound to a placeholder or written in single quotes. -/
  | param (text : String)
deriving DecidableEq

/-- How a statement is written. -/
structure RenderOptions where
  /-- Write texts in place instead of placeholders. -/
  literalBinds : Bool := false
  /-- Leave a label out where the column already has that name. -/
  simpleNames : Bool := false
deriving DecidableEq

/-- The placeholders that a database expects. -/
inductive ParamStyle where
  /-- A dollar sign and the number of the parameter. -/
  | dollar
  /-- A question mark. -/
  | questionMark
deriving DecidableEq, Inhabited

/-- SQL text with the parameters that its placeholders stand for. -/
structure SqlText where
  sql : String := ""
  params : List String := []
  paramIndex : Nat := 0
deriving DecidableEq, Inhabited

/-- Encloses a text in quotes, doubling those inside it. -/
def enclose (quote : Char) (s : String) : String :=
  String.ofList (quote :: s.toList.flatMap (fun c => if c = quote then [c, c] else [c]) ++ [quote])

/-- The placeholder of the parameter with the given number. -/
def ParamStyle.placeholder : ParamStyle → Nat → String
  | .dollar, n => "$" ++ toString n
  | .questionMark, _ => "?"

namespace SqlText

def push (t : SqlText) (s : String) : SqlText := { t with sql := t.sql ++ s }

def append (options : RenderOptions) (style : ParamStyle) (t : SqlText) : Fragment → SqlText
  | .plain s => t.push s
  | .identifier name => t.push (enclose '"' name)
  | .quoted s => t.push (enclose '\'' s)
  | .param s =>
    if options.literalBinds then t.push (enclose '\'' s)
    else
      { sql := t.sql ++ style.placeholder (t.paramIndex + 1)
        params := t.params ++ [s]
        paramIndex := t.paramIndex + 1 }

/-- Assembles fragments from left to right. -/
def assemble (options : RenderOptions) (style : ParamStyle) (fragments : List Fragment) : SqlText :=
  fragments.foldl (append options style) {}

end SqlText

end PipelineSql.Sql
