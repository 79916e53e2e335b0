import PipelineSql.Request.Basic

namespace PipelineSql

open Sql (ExplainStyle ParamStyle RenderOptions Select SqlText)

/-- A query that is ready to be sent to a database. -/
structure Plan where
  /-- The name of the table that the query started from. -/
  collection : String
  query : Select
  paramStyle : ParamStyle
  explainStyle : ExplainStyle

namespace Plan

/-- The statement that runs the query. -/
def querySql (p : Plan) (options : RenderOptions) : SqlText :=
  p.query.render options p.paramStyle

/-- The statement that asks for the plan of the query. -/
def explainSql (p : Plan) (options : RenderOptions) : SqlText :=
  p.query.renderExplain options p.paramStyle p.explainStyle

end Plan

/-- The plan of a query as it stands. -/
def QueryState.toPlan (s : QueryState) : Plan where
  collection := s.collection
  query := s.last
  paramStyle := s.dialect.paramStyle
  explainStyle := s.dialect.explainStyle

def Request.plan (catalog : Catalog) (functions : FunctionTable) (r : Request) :
    Except Error Plan :=
  (r.run catalog functions).map QueryState.toPlan

end PipelineSql
