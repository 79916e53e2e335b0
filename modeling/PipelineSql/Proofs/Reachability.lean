import Mathlib.Data.Set.Basic
import PipelineSql.Proofs.VerbCases

/-!
# Queries that can be built

A query starts from a table and goes on by verbs and by joins with other such queries. Every
request gives a query of this kind, so what is shown for reachable queries holds of every request.
-/

namespace PipelineSql

/-- A query and what one verb, other than a join, makes of it. -/
inductive Step : QueryState → QueryState → Prop where
  | select {s t : QueryState} {columns : List ColumnExpr} :
      s.select columns = .ok t → Step s t
  | rename {s t : QueryState} {columns : List (String × ColumnExpr)} :
      s.rename columns = .ok t → Step s t
  | filter {s t : QueryState} {predicates : List ColumnExpr} :
      s.filter predicates = .ok t → Step s t
  | mutate {s t : QueryState} {columns : List (String × ColumnExpr)} :
      s.mutate columns = .ok t → Step s t
  | arrange {s t : QueryState} {terms : List ColumnExpr} :
      s.arrange terms = .ok t → Step s t
  | summarize {s t : QueryState} {columns : List (String × ColumnExpr)} :
      s.summarize columns = .ok t → Step s t
  | count {s t : QueryState} {columns : List ColumnExpr} {name : Option String} {sort : Bool} :
      s.count columns name sort = .ok t → Step s t
  | distinct {s t : QueryState} {columns : List ColumnExpr}
      {computed : List (String × ColumnExpr)} {keepAll : Bool} :
      s.distinct columns computed keepAll = .ok t → Step s t
  | head {s : QueryState} (n : UInt32) : Step s (s.head n)
  | groupBy {s t : QueryState} {columns : List ColumnExpr} {add : Bool} :
      s.groupBy columns add = .ok t → Step s t
  | ungroup {s : QueryState} : Step s s.ungroup

/-- The queries over some tables that are built with some function tables. -/
inductive Reachable (tables : Set TableInfo) (functions : Set FunctionTable) :
    QueryState → Prop where
  | table {f : FunctionTable} {info : TableInfo} (collection : String) :
      f ∈ functions → info ∈ tables →
      Reachable tables functions (.ofTable f collection info)
  | step {s t : QueryState} : Reachable tables functions s → Step s t →
      Reachable tables functions t
  | join {s t u : QueryState} {keys : JoinKeys} {kind : JoinKind} :
      Reachable tables functions s → Reachable tables functions t →
      s.join t keys kind = .ok u → Reachable tables functions u

/-- What further verbs and joins, on either side, make of a query. -/
inductive Derives (s : QueryState) : QueryState → Prop where
  | refl : Derives s s
  | step {t u : QueryState} : Derives s t → Step t u → Derives s u
  | joinLeft {t other u : QueryState} {keys : JoinKeys} {kind : JoinKind} :
      Derives s t → t.join other keys kind = .ok u → Derives s u
  | joinRight {t other u : QueryState} {keys : JoinKeys} {kind : JoinKind} :
      Derives s t → other.join t keys kind = .ok u → Derives s u

lemma Reachable.mono {tables : Set TableInfo} {functions functions' : Set FunctionTable}
    (himp : ∀ f ∈ functions, f ∈ functions') {s : QueryState} (h : Reachable tables functions s) :
    Reachable tables functions' s := by
  induction h with
  | table collection hf hinfo => exact .table collection (himp _ hf) hinfo
  | step _ hstep ih => exact ih.step hstep
  | join _ _ hjoin ihs iht => exact ihs.join iht hjoin

lemma mutate_functions {s t : QueryState} {columns : List (String × ColumnExpr)}
    (h : s.mutate columns = .ok t) : t.functions = s.functions := by
  rcases QueryState.mutate_cases h with ⟨_, rfl⟩ | ⟨q, aliases, _, rfl⟩
  · rfl
  · rfl

/-- A verb does not change which functions a query uses. -/
lemma Step.functions_eq {s t : QueryState} (h : Step s t) : t.functions = s.functions := by
  cases h with
  | select h =>
    obtain ⟨_, _, _, _, _, _, _, _, _, _, _, _, rfl⟩ := QueryState.select_cases h
    rfl
  | rename h =>
    obtain ⟨_, _, _, _, _, rfl⟩ := QueryState.rename_cases h
    rfl
  | filter h =>
    rcases QueryState.filter_cases h with ⟨_, rfl⟩ | ⟨_, _, _, _, _, _, _, _, _, _, _, _, _, _, _, rfl⟩
    · rfl
    · rfl
  | mutate h => exact mutate_functions h
  | arrange h =>
    rcases QueryState.arrange_cases h with rfl | ⟨_, _, _, _, _, rfl⟩
    · rfl
    · rfl
  | summarize h =>
    obtain ⟨_, _, _, _, _, _, _, _, _, _, _, rfl⟩ := QueryState.summarize_cases h
    rfl
  | count h =>
    obtain ⟨_, _, _, _, _, _, _, _, _, _, _, _, _, _, _, rfl⟩ := QueryState.count_cases h
    rfl
  | distinct h =>
    obtain ⟨_, base, _, _, _, _, _, hbase, _, _, _, rfl⟩ := QueryState.distinct_cases h
    have hfunctions : base.functions = s.functions := mutate_functions hbase
    exact hfunctions
  | head n => rfl
  | groupBy h =>
    obtain ⟨_, rfl⟩ := QueryState.groupBy_cases h
    rfl
  | ungroup => rfl

lemma Reachable.functions_mem {tables : Set TableInfo} {functions : Set FunctionTable}
    {s : QueryState} (h : Reachable tables functions s) : s.functions ∈ functions := by
  induction h with
  | table _ hf _ => exact hf
  | step _ hstep ih => exact hstep.functions_eq ▸ ih
  | join _ _ hjoin ihs _ =>
    obtain ⟨_, _, _, _, _, _, _, _, _, _, _, _, _, _, _, _, _, _, rfl⟩ :=
      QueryState.join_cases hjoin
    exact ihs

/-- A table for concrete instances: people, each in a group and with a number. -/
def peopleTable : TableInfo where
  schemaName := some "public"
  tableName := "people"
  columns := .ofList [("g", { name := "g", type := .integer }),
    ("x", { name := "x", type := .integer })]

/-- All columns of `peopleTable`. -/
def people (dialect : Dialect) : QueryState := .ofTable (.builtIn dialect) "people" peopleTable

/-- A catalog with `peopleTable` alone. -/
def peopleCatalog : Catalog where
  tables := [("people", peopleTable)]

/-- The tables of a catalog. -/
def Catalog.infos (c : Catalog) : Set TableInfo := {info | ∃ name, c.table? name = some info}

mutual

/-- Every request that succeeds gives a reachable query. -/
theorem Request.run_reachable {catalog : Catalog} {f : FunctionTable} :
    ∀ (r : Request) {s : QueryState}, r.run catalog f = .ok s →
      Reachable catalog.infos {f} s
  | ⟨collection, pipeline⟩, s, h => by
    simp only [Request.run] at h
    split at h
    · rename_i info hinfo
      exact runPipeline_reachable pipeline (.table collection rfl ⟨collection, hinfo⟩) h
    · cases h

theorem runPipeline_reachable {catalog : Catalog} {f : FunctionTable} :
    ∀ (verbs : List Verb) {s t : QueryState}, Reachable catalog.infos {f} s →
      runPipeline catalog f s verbs = .ok t → Reachable catalog.infos {f} t
  | [], s, t, hs, h => by
    simp only [runPipeline, Except.ok.injEq] at h
    exact h ▸ hs
  | v :: verbs, s, t, hs, h => by
    simp only [runPipeline, bind_eq_ok] at h
    obtain ⟨u, hu, ht⟩ := h
    exact runPipeline_reachable verbs (Verb.run_reachable v hs hu) ht

theorem Verb.run_reachable {catalog : Catalog} {f : FunctionTable} :
    ∀ (v : Verb) {s t : QueryState}, Reachable catalog.infos {f} s →
      v.run catalog f s = .ok t → Reachable catalog.infos {f} t
  | .select _, _, _, hs, h => hs.step (.select h)
  | .filter _, _, _, hs, h => hs.step (.filter h)
  | .mutate _, _, _, hs, h => hs.step (.mutate h)
  | .arrange _, _, _, hs, h => hs.step (.arrange h)
  | .summarize _, _, _, hs, h => hs.step (.summarize h)
  | .count _ _ _, _, _, hs, h => hs.step (.count h)
  | .groupBy _ _, _, _, hs, h => hs.step (.groupBy h)
  | .ungroup, _, _, hs, h => by
    simp only [Verb.run, Except.ok.injEq] at h
    exact hs.step (h ▸ .ungroup)
  | .join right _ _, _, _, hs, h => by
    simp only [Verb.run, bind_eq_ok] at h
    obtain ⟨u, hu, hjoin⟩ := h
    exact hs.join (Request.run_reachable right hu) hjoin
  | .rename _, _, _, hs, h => hs.step (.rename h)
  | .distinct _ _ _, _, _, hs, h => hs.step (.distinct h)
  | .head n, _, _, hs, h => by
    simp only [Verb.run, Except.ok.injEq] at h
    exact hs.step (h ▸ .head n)

end

end PipelineSql
