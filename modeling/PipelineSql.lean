import PipelineSql.Catalog.ScalarType
import PipelineSql.Catalog.Table
import PipelineSql.ColumnExpr.Basic
import PipelineSql.ColumnExpr.Build
import PipelineSql.ColumnExpr.Codec
import PipelineSql.ColumnExpr.Display
import PipelineSql.CommandLine
import PipelineSql.CommandLine.Arguments
import PipelineSql.Compile.Expr
import PipelineSql.Compile.Scope
import PipelineSql.Compile.Window
import PipelineSql.Configuration.Basic
import PipelineSql.Configuration.Schema
import PipelineSql.Data.Fresh
import PipelineSql.Data.OrderedMap
import PipelineSql.Data.OrderedSet
import PipelineSql.Data.SortedEntries
import PipelineSql.Dialect
import PipelineSql.Error
import PipelineSql.Function.Builder
import PipelineSql.Function.Table
import PipelineSql.Json.Basic
import PipelineSql.Json.Decode
import PipelineSql.Json.Numeral
import PipelineSql.Json.Printer
import PipelineSql.Json.Reader
import PipelineSql.Json.Token
import PipelineSql.Literal
import PipelineSql.Main
import PipelineSql.Metrics
import PipelineSql.Number.Double
import PipelineSql.Number.Layout
import PipelineSql.Number.Shortest
import PipelineSql.Operation
import PipelineSql.Plan
import PipelineSql.Proofs.Acceptance
import PipelineSql.Proofs.AddedColumns
import PipelineSql.Proofs.Aggregation
import PipelineSql.Proofs.AmbiguousColumns
import PipelineSql.Proofs.Building
import PipelineSql.Proofs.ClauseRetention
import PipelineSql.Proofs.ColumnNames
import PipelineSql.Proofs.ColumnReads
import PipelineSql.Proofs.ColumnRuns
import PipelineSql.Proofs.Comments
import PipelineSql.Proofs.Compiling
import PipelineSql.Proofs.CountedColumns
import PipelineSql.Proofs.ExpressionTrees
import PipelineSql.Proofs.Expressions
import PipelineSql.Proofs.FreshNames
import PipelineSql.Proofs.Grammar
import PipelineSql.Proofs.GroupCompilation
import PipelineSql.Proofs.GroupConstancy
import PipelineSql.Proofs.GroupSemantics
import PipelineSql.Proofs.GroupedSummaries
import PipelineSql.Proofs.GroupsAndOrder
import PipelineSql.Proofs.Hoisting
import PipelineSql.Proofs.Identifiers
import PipelineSql.Proofs.Inheritance
import PipelineSql.Proofs.JoinedRows
import PipelineSql.Proofs.Lexing
import PipelineSql.Proofs.Lookup
import PipelineSql.Proofs.Modes
import PipelineSql.Proofs.Narrowing
import PipelineSql.Proofs.Nesting
import PipelineSql.Proofs.Numerals
import PipelineSql.Proofs.OperandReading
import PipelineSql.Proofs.OrderInStep
import PipelineSql.Proofs.OrderRelabelling
import PipelineSql.Proofs.OrderTranslation
import PipelineSql.Proofs.ParallelCompilation
import PipelineSql.Proofs.Quoting
import PipelineSql.Proofs.Reachability
import PipelineSql.Proofs.ReadBack
import PipelineSql.Proofs.Rebinding
import PipelineSql.Proofs.References
import PipelineSql.Proofs.Relabelling
import PipelineSql.Proofs.Rendering
import PipelineSql.Proofs.Rewriting
import PipelineSql.Proofs.RowCompilation
import PipelineSql.Proofs.RowEvaluation
import PipelineSql.Proofs.RowPipelines
import PipelineSql.Proofs.RowSemantics
import PipelineSql.Proofs.Scoping
import PipelineSql.Proofs.Serialization
import PipelineSql.Proofs.Splitting
import PipelineSql.Proofs.Substitution
import PipelineSql.Proofs.TableExtension
import PipelineSql.Proofs.TextMatching
import PipelineSql.Proofs.VerbCases
import PipelineSql.Proofs.Vocabulary
import PipelineSql.Proofs.WindowPlacement
import PipelineSql.Proofs.WindowedFilters
import PipelineSql.Proofs.Windows
import PipelineSql.Query.Derivation
import PipelineSql.Query.Grouping
import PipelineSql.Query.Join
import PipelineSql.Query.Ordering
import PipelineSql.Query.Projection
import PipelineSql.Query.Restriction
import PipelineSql.Query.State
import PipelineSql.Request.Basic
import PipelineSql.Request.Codec
import PipelineSql.RowSet
import PipelineSql.Session
import PipelineSql.Sql.Alias
import PipelineSql.Sql.Expr
import PipelineSql.Sql.Render
import PipelineSql.Sql.Select
import PipelineSql.Sql.Text
