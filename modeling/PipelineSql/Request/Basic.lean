import PipelineSql.Query.Grouping
import PipelineSql.Query.Join
import PipelineSql.Query.Ordering
import PipelineSql.Query.Restriction

/-!
# Requests

A request is a table and a pipeline of verbs; the right side of a join is a request again.
-/

namespace PipelineSql

mutual

/-- A table and the verbs applied to it. -/
structure Request where
  collection : String
  pipeline : List Verb

/-- One verb with its arguments. -/
inductive Verb where
  | select (columns : List ColumnExpr)
  | filter (predicates : List ColumnExpr)
  | mutate (columns : OrderedMap ColumnExpr)
  | arrange (terms : List ColumnExpr)
  | summarize (columns : OrderedMap ColumnExpr)
  | count (columns : List ColumnExpr) (name : Option String) (sort : Bool)
  | groupBy (columns : List ColumnExpr) (add : Bool)
  | ungroup
  | join (right : Request) (on : JoinKeys) (how : JoinKind)
  | rename (columns : OrderedMap ColumnExpr)
  | distinct (columns : List ColumnExpr) (computed : OrderedMap ColumnExpr) (keepAll : Bool)
  | head (n : UInt32)

end

/-- The name under which a verb is written. -/
def Verb.name : Verb → String
  | .select _ => "select"
  | .filter _ => "filter"
  | .mutate _ => "mutate"
  | .arrange _ => "arrange"
  | .summarize _ => "summarize"
  | .count _ _ _ => "count"
  | .groupBy _ _ => "group_by"
  | .ungroup => "ungroup"
  | .join _ _ _ => "join"
  | .rename _ => "rename"
  | .distinct _ _ _ => "distinct"
  | .head _ => "head"

mutual

def Request.same : Request → Request → Bool
  | ⟨c, p⟩, ⟨d, q⟩ => c = d && samePipeline p q
termination_by structural a => a

def samePipeline : List Verb → List Verb → Bool
  | [], [] => true
  | v :: vs, w :: ws => v.same w && samePipeline vs ws
  | _, _ => false
termination_by structural a => a

def Verb.same : Verb → Verb → Bool
  | .select a, .select b => a = b
  | .filter a, .filter b => a = b
  | .mutate a, .mutate b => a = b
  | .arrange a, .arrange b => a = b
  | .summarize a, .summarize b => a = b
  | .count a n s, .count b m t => a = b && n = m && s = t
  | .groupBy a p, .groupBy b q => a = b && p = q
  | .ungroup, .ungroup => true
  | .join r k h, .join r' k' h' => r.same r' && k = k' && h = h'
  | .rename a, .rename b => a = b
  | .distinct a c k, .distinct b d l => a = b && c = d && k = l
  | .head n, .head m => n = m
  | _, _ => false
termination_by structural a => a

end

mutual

theorem Request.eq_of_same : {a b : Request} → a.same b = true → a = b
  | ⟨c, p⟩, ⟨d, q⟩, h => by
    simp only [Request.same, Bool.and_eq_true, decide_eq_true_eq] at h
    rw [h.1, eq_of_samePipeline h.2]

theorem eq_of_samePipeline : {a b : List Verb} → samePipeline a b = true → a = b
  | [], [], _ => rfl
  | v :: vs, w :: ws, h => by
    simp only [samePipeline, Bool.and_eq_true] at h
    rw [Verb.eq_of_same h.1, eq_of_samePipeline h.2]

theorem Verb.eq_of_same : {a b : Verb} → a.same b = true → a = b
  | .select a, .select b, h => by simpa [Verb.same] using h
  | .filter a, .filter b, h => by simpa [Verb.same] using h
  | .mutate a, .mutate b, h => by simpa [Verb.same] using h
  | .arrange a, .arrange b, h => by simpa [Verb.same] using h
  | .summarize a, .summarize b, h => by simpa [Verb.same] using h
  | .count a n s, .count b m t, h => by
    simp only [Verb.same, Bool.and_eq_true, decide_eq_true_eq] at h
    rw [h.1.1, h.1.2, h.2]
  | .groupBy a p, .groupBy b q, h => by
    simp only [Verb.same, Bool.and_eq_true, decide_eq_true_eq] at h
    rw [h.1, h.2]
  | .ungroup, .ungroup, _ => rfl
  | .join r k h, .join r' k' h', e => by
    simp only [Verb.same, Bool.and_eq_true, decide_eq_true_eq] at e
    rw [Request.eq_of_same e.1.1, e.1.2, e.2]
  | .rename a, .rename b, h => by simpa [Verb.same] using h
  | .distinct a c k, .distinct b d l, h => by
    simp only [Verb.same, Bool.and_eq_true, decide_eq_true_eq] at h
    rw [h.1.1, h.1.2, h.2]
  | .head n, .head m, h => by simpa [Verb.same] using h

end

mutual

theorem Request.same_self : (a : Request) → a.same a = true
  | ⟨c, p⟩ => by simp [Request.same, samePipeline_self p]

theorem samePipeline_self : (a : List Verb) → samePipeline a a = true
  | [] => rfl
  | v :: vs => by simp [samePipeline, Verb.same_self v, samePipeline_self vs]

theorem Verb.same_self : (a : Verb) → a.same a = true
  | .select _ => by simp [Verb.same]
  | .filter _ => by simp [Verb.same]
  | .mutate _ => by simp [Verb.same]
  | .arrange _ => by simp [Verb.same]
  | .summarize _ => by simp [Verb.same]
  | .count _ _ _ => by simp [Verb.same]
  | .groupBy _ _ => by simp [Verb.same]
  | .ungroup => rfl
  | .join r _ _ => by simp [Verb.same, Request.same_self r]
  | .rename _ => by simp [Verb.same]
  | .distinct _ _ _ => by simp [Verb.same]
  | .head _ => by simp [Verb.same]

end

instance : DecidableEq Request := fun a b =>
  decidable_of_iff (a.same b = true) ⟨Request.eq_of_same, fun h => h ▸ a.same_self⟩

mutual

/-- The query of a request: all columns of its table, and then verb after verb. -/
def Request.run (catalog : Catalog) (functions : FunctionTable) : Request → Except Error QueryState
  | ⟨collection, pipeline⟩ =>
    match catalog.table? collection with
    | some table => runPipeline catalog functions (.ofTable functions collection table) pipeline
    | none => .error (.collectionNotFound collection)

/-- Applies verbs from left to right. -/
def runPipeline (catalog : Catalog) (functions : FunctionTable) (s : QueryState) :
    List Verb → Except Error QueryState
  | [] => .ok s
  | v :: vs => do
    let t ← Verb.run catalog functions s v
    runPipeline catalog functions t vs

/-- Applies a verb. The right side of a join is a request of its own. -/
def Verb.run (catalog : Catalog) (functions : FunctionTable) (s : QueryState) :
    Verb → Except Error QueryState
  | .select columns => s.select columns
  | .filter predicates => s.filter predicates
  | .mutate columns => s.mutate columns.entries
  | .arrange terms => s.arrange terms
  | .summarize columns => s.summarize columns.entries
  | .count columns name sort => s.count columns name sort
  | .groupBy columns add => s.groupBy columns add
  | .ungroup => .ok s.ungroup
  | .join right on how => do
    let t ← Request.run catalog functions right
    s.join t on how
  | .rename columns => s.rename columns.entries
  | .distinct columns computed keepAll => s.distinct columns computed.entries keepAll
  | .head n => .ok (s.head n)

end

end PipelineSql
