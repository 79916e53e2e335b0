namespace PipelineSql

/-- How many queries ran, how many plans were asked for, how many failed, and how many times were
taken. -/
structure Metrics where
  queries : Nat := 0
  explains : Nat := 0
  failures : Nat := 0
  timings : Nat := 0
deriving DecidableEq

/-- What can be recorded. -/
inductive MetricsEvent where
  | query
  | explain
  | failure
  | time (milliseconds : Nat)
deriving DecidableEq

namespace Metrics

/-- Records an event. -/
def record (m : Metrics) : MetricsEvent → Metrics
  | .query => { m with queries := m.queries + 1 }
  | .explain => { m with explains := m.explains + 1 }
  | .failure => { m with failures := m.failures + 1 }
  | .time _ => { m with timings := m.timings + 1 }

/-- The name and the description of each metric. -/
def families : List (String × String) :=
  [("lazy_query_query_total", "Total successful queries."),
    ("lazy_query_explain_total", "Total successful explains."),
    ("lazy_query_error_total", "Total queries that failed in the database."),
    ("lazy_query_query_execution_time",
      "Time taken to execute a query and fetch its rows, in seconds.")]

end Metrics

/-- The metrics that are published, each name once. -/
structure MetricsRegistry where
  families : List (String × String) := []
deriving DecidableEq

namespace MetricsRegistry

/-- Publishes one metric, unless its name is taken. -/
def add (r : MetricsRegistry) (family : String × String) : Option MetricsRegistry :=
  if family.1 ∈ r.families.map Prod.fst then none else some ⟨r.families ++ [family]⟩

/-- Publishes fresh metrics, unless one of their names is taken. -/
def register (r : MetricsRegistry) : Option (MetricsRegistry × Metrics) :=
  (Metrics.families.foldlM add r).map fun registry => (registry, {})

/-- The published metrics, sorted by name. -/
def gather (r : MetricsRegistry) : List (String × String) :=
  r.families.mergeSort fun a b => decide (a.1 ≤ b.1)

end MetricsRegistry

end PipelineSql
