import PipelineSql.Sql.Select
import PipelineSql.Sql.Text

/-!
# SQL text

A statement is a list of fragments first, and text afterwards. Only the second step knows how
parameters are written, so all ways of writing a statement agree on everything else.
-/

namespace PipelineSql.Sql

/-- Items with plain text between them. -/
def separated (between : String) : List (List Fragment) → List Fragment
  | [] => []
  | [item] => item
  | item :: rest => item ++ .plain between :: separated between rest

/-- The keyword of a direction, after a blank. -/
def Direction.keyword : Direction → String
  | .asc => " ASC"
  | .desc => " DESC"

namespace TableAlias

def identifier (a : TableAlias) : String := a.name ++ "_" ++ toString a.index

def fragment (a : TableAlias) : Fragment := .identifier a.identifier

end TableAlias

/-- A table, with its schema if it has one. -/
def TableRef.fragments : TableRef → List Fragment
  | .stored none table => [.identifier table]
  | .stored (some schema) table => [.identifier schema, .plain ".", .identifier table]
  | .aliased a => [a.fragment]

/-- A column, after its table. -/
def ColumnRef.fragments : ColumnRef → List Fragment
  | .stored table name => table.fragments ++ [.plain ".", .identifier name]
  | .labelled table label => table.fragments ++ [.plain ".", .identifier label]

/-- The words for one end of a frame. -/
def FrameBound.words : FrameBound → String
  | .unboundedPreceding => "UNBOUNDED PRECEDING"
  | .currentRow => "CURRENT ROW"

def Frame.fragments (f : Frame) : List Fragment :=
  [.plain "ROWS BETWEEN ", .plain f.first.words, .plain " AND ", .plain f.last.words]

/-- A constant. Texts are parameters. -/
def literalFragment : Literal → Fragment
  | .null => .plain "NULL"
  | .bool true => .plain "true"
  | .bool false => .plain "false"
  | .int i => .plain (Literal.intText i)
  | .float x => .plain (Literal.floatText x)
  | .str s => .param s

/-- A clause that is there when it has items. -/
def clause (keyword : String) (items : List (List Fragment)) : List (List Fragment) :=
  if items.isEmpty then [] else [.plain keyword :: separated ", " items]

mutual

/-- The text of an expression, every operation in parentheses of its own. -/
def Expr.fragments : Expr → List Fragment
  | .and l r => .plain "(" :: l.fragments ++ .plain " AND " :: r.fragments ++ [.plain ")"]
  | .or l r => .plain "(" :: l.fragments ++ .plain " OR " :: r.fragments ++ [.plain ")"]
  | .not e => .plain "NOT (" :: e.fragments ++ [.plain ")"]
  | .binary l op r =>
    .plain "(" :: l.fragments ++ .plain (" " ++ op ++ " ") :: r.fragments ++ [.plain ")"]
  | .isIn e es =>
    .plain "(" :: e.fragments ++ .plain " IN (" :: separated ", " (listFragments es) ++
      [.plain "))"]
  | .isNull e => .plain "(" :: e.fragments ++ [.plain " IS NULL)"]
  | .isNotNull e => .plain "(" :: e.fragments ++ [.plain " IS NOT NULL)"]
  | .negate e => .plain "(-" :: e.fragments ++ [.plain ")"]
  | .call name args =>
    .plain name :: .plain "(" :: separated ", " (listFragments args) ++ [.plain ")"]
  | .case whens otherwise =>
    .plain "CASE" :: whenFragments whens ++ elseFragments otherwise ++ [.plain " END"]
  | .window e ⟨partitionBy, orderBy, frame⟩ =>
    e.fragments ++ .plain " OVER (" ::
      separated " " (clause "PARTITION BY " (listFragments partitionBy) ++
        clause "ORDER BY " (orderFragments orderBy) ++ (frame.map Frame.fragments).toList) ++
      [.plain ")"]
  | .column ref => ref.fragments
  | .value v => [literalFragment v]
  | .cast e type => .plain "CAST(" :: e.fragments ++ [.plain " AS ", .plain type, .plain ")"]
  | .countAll => [.plain "COUNT(*)"]
  | .count e => .plain "COUNT(" :: e.fragments ++ [.plain ")"]
  | .countDistinct e => .plain "COUNT(DISTINCT " :: e.fragments ++ [.plain ")"]

def listFragments : List Expr → List (List Fragment)
  | [] => []
  | e :: es => e.fragments :: listFragments es

def whenFragments : List (Expr × Expr) → List Fragment
  | [] => []
  | (c, e) :: rest =>
    .plain " WHEN " :: c.fragments ++ .plain " THEN " :: e.fragments ++ whenFragments rest

def elseFragments : Option Expr → List Fragment
  | none => []
  | some e => .plain " ELSE " :: e.fragments

def orderFragments : List (Ordered Expr) → List (List Fragment)
  | [] => []
  | ⟨e, d⟩ :: rest => (e.fragments ++ [.plain d.keyword]) :: orderFragments rest

end

/-- One entry of a select list. With simple names, a column that already has its label goes
without it. -/
def columnFragments (simpleNames : Bool) (c : String × Expr) : List Fragment :=
  if simpleNames && c.2.exposes c.1 then c.2.fragments
  else c.2.fragments ++ [.plain " AS ", .identifier c.1]

def JoinType.keyword : JoinType → String
  | .inner => " INNER JOIN "
  | .leftOuter => " LEFT OUTER JOIN "
  | .fullOuter => " FULL OUTER JOIN "

/-- The condition on rows, left out when it always holds. -/
def whereFragments (condition : Expr) : List Fragment :=
  if condition.isTrue then [] else .plain " WHERE " :: condition.fragments

/-- A limit on the number of rows, or on those skipped. -/
def limitFragments (keyword : String) : Option UInt32 → List Fragment
  | none => []
  | some n => [.plain keyword, .plain (toString n.toNat)]

mutual

/-- The text of a query, clause by clause. -/
def Select.fragments (simpleNames : Bool) : Select → List Fragment
  | ⟨distinct, columns, source, joins, condition, groupBy, orderBy, limit, offset⟩ =>
    .plain "SELECT " :: (if distinct then [.plain "DISTINCT "] else []) ++
      separated ", " (columns.map (columnFragments simpleNames)) ++
      sourceFragments simpleNames source ++ joinFragments simpleNames joins ++
      whereFragments condition ++ (clause " GROUP BY " (listFragments groupBy)).flatten ++
      (clause " ORDER BY " (orderFragments orderBy)).flatten ++
      limitFragments " LIMIT " limit ++ limitFragments " OFFSET " offset

/-- What a query reads from. -/
def sourceFragments (simpleNames : Bool) : Option (Source Select) → List Fragment
  | none => []
  | some (.table table a) => .plain " FROM " :: table.fragments ++ [.plain " AS ", a.fragment]
  | some (.subquery select a) =>
    .plain " FROM (" :: select.fragments simpleNames ++ [.plain ") AS ", a.fragment]

/-- The joined subqueries. -/
def joinFragments (simpleNames : Bool) : List (Joined Select) → List Fragment
  | [] => []
  | ⟨type, select, a, condition⟩ :: rest =>
    .plain type.keyword :: .plain "(" :: select.fragments simpleNames ++
      .plain ") AS " :: a.fragment :: .plain " ON " :: condition.fragments ++
      joinFragments simpleNames rest

end

/-- Writes an expression. -/
def Expr.render (options : RenderOptions) (style : ParamStyle) (e : Expr) : SqlText :=
  .assemble options style e.fragments

/-- Writes a query. -/
def Select.render (options : RenderOptions) (style : ParamStyle) (s : Select) : SqlText :=
  .assemble options style (s.fragments options.simpleNames)

/-- How a database is asked for the plan of a query. -/
inductive ExplainStyle where
  | explain
  | explainQueryPlan
deriving DecidableEq

/-- The words before a query whose plan is asked for. -/
def ExplainStyle.keyword : ExplainStyle → String
  | .explain => "EXPLAIN "
  | .explainQueryPlan => "EXPLAIN QUERY PLAN "

/-- Writes the statement that asks for the plan of a query. -/
def Select.renderExplain (options : RenderOptions) (style : ParamStyle) (plan : ExplainStyle)
    (s : Select) : SqlText :=
  .assemble options style (.plain plan.keyword :: s.fragments options.simpleNames)

/-- An expression as text, texts in place. -/
def Expr.inline (e : Expr) : String := (e.render { literalBinds := true } .dollar).sql

end PipelineSql.Sql
