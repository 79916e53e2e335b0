import PipelineSql.Plan
import PipelineSql.Proofs.ParallelCompilation
import PipelineSql.Proofs.Reachability
import PipelineSql.Proofs.RowCompilation
import PipelineSql.Proofs.Serialization

/-!
# Function tables that offer more

A request looks up the operations that occur in it and no others. A second table that answers
these look-ups as the first one does, wherever the first one answers at all, therefore gives the
same plan. The two runs are compared verb by verb: their states differ in the tables alone.
-/

namespace PipelineSql

open Sql (Expr Ordered Select AliasCounter)

/-- Every operation that the expression calls is one of those in question. -/
def ColumnExpr.CallsOnly (used : Operation → Prop) (e : ColumnExpr) : Prop :=
  ∀ operation ∈ e.operations, used operation

namespace ColumnExpr

variable {used : Operation → Prop}

lemma CallsOnly.shape {e : ColumnExpr} (h : e.CallsOnly used) : e.shape.CallsOnly used := by
  intro operation hop
  rw [operations_shape] at hop
  exact h operation hop

lemma operations_renameNode (renames : String → String) (e : ColumnExpr) :
    (renameNode renames e).operations = e.operations := by
  unfold renameNode
  split
  · rfl
  · rfl

lemma CallsOnly.rename {e : ColumnExpr} (h : e.CallsOnly used) (renames : String → String) :
    (e.rename renames).CallsOnly used := by
  intro operation hop
  rw [ColumnExpr.rename, operations_mapNodes (operations_renameNode renames)] at hop
  exact h operation hop

lemma callsOnly_call {operation : Operation} {args : List ColumnExpr}
    {keywords : List (String × ColumnExpr)}
    (h : (ColumnExpr.call operation args keywords).CallsOnly used) :
    used operation ∧ (∀ a ∈ args, a.CallsOnly used) ∧ ∀ k ∈ keywords, k.2.CallsOnly used := by
  have hmem : ∀ op, op = operation ∨ (∃ a ∈ args, op ∈ a.operations) ∨
      (∃ k ∈ keywords, op ∈ k.2.operations) → used op := by
    intro op hop
    refine h op ?_
    simpa [operations] using hop
  refine ⟨hmem _ (Or.inl rfl), ?_, ?_⟩
  · exact fun a ha op hop => hmem op (Or.inr (Or.inl ⟨a, ha, hop⟩))
  · exact fun k hk op hop => hmem op (Or.inr (Or.inr ⟨k, hk, hop⟩))

/-- What an ordering term sorts by is part of the term. -/
lemma CallsOnly.orderTerm {e : ColumnExpr} (h : e.CallsOnly used) :
    (orderTerm e).target.CallsOnly used := by
  unfold PipelineSql.orderTerm
  split
  · exact (callsOnly_call h).2.1 _ List.mem_cons_self
  · exact (callsOnly_call h).2.1 _ List.mem_cons_self
  · exact h

end ColumnExpr

/-- The second table has the dialect of the first and finds, for the operations in question, every
builder that the first one finds. -/
structure FunctionTable.ExtendedBy (used : Operation → Prop) (f g : FunctionTable) : Prop where
  dialect : g.dialect = f.dialect
  lookup : ∀ operation, used operation → ∀ mode builder, f.lookup operation mode = .ok builder →
    g.lookup operation mode = .ok builder

section Compilation

variable {used : Operation → Prop} {f g : FunctionTable} {scope : Scope} {windows : WindowContext}
  {mode : Mode}

/-- What compiles with a table compiles to the same with a table that offers more. -/
lemma follows_extended (hg : f.ExtendedBy used g) :
    CompileEnv.Follows ⟨f, scope, windows⟩ ⟨g, scope, windows⟩ mode mode .column id
      (ColumnExpr.CallsOnly used) fun found other => other = found :=
  CompileEnv.follows_lookup (fun _ _ _ hcalls => (ColumnExpr.callsOnly_call hcalls).2)
    fun operation _ _ builder hcalls hb =>
      hg.lookup operation (ColumnExpr.callsOnly_call hcalls).1 mode builder hb

lemma compileAll_extended (hg : f.ExtendedBy used g) {es : List ColumnExpr}
    {result : List Expr × List LabelledWindow} (hes : ∀ e ∈ es, e.CallsOnly used)
    (h : CompileEnv.compileAll ⟨f, scope, windows⟩ mode es = .ok result) :
    CompileEnv.compileAll ⟨g, scope, windows⟩ mode es = .ok result :=
  (follows_extended hg).compileAll_of_eq hes h

end Compilation

namespace QueryState

/-- The same query over another function table. -/
def withFunctions (s : QueryState) (g : FunctionTable) : QueryState := { s with functions := g }

/-- A query whose table is extended by another on the operations in question, and whose recorded
ordering calls no others. The ordering matters because later verbs compile it again. -/
structure Extends (used : Operation → Prop) (g : FunctionTable) (s : QueryState) : Prop where
  table : s.functions.ExtendedBy used g
  order : ∀ term ∈ s.order, term.target.CallsOnly used

variable {used : Operation → Prop} {g : FunctionTable} {s t u : QueryState}

lemma compileIn_withFunctions (hg : s.functions.ExtendedBy used g) {scope : Scope} {mode : Mode}
    {windows : WindowContext} {e : ColumnExpr} {x : Expr} (he : e.CallsOnly used)
    (h : s.compileIn scope mode windows e = .ok x) :
    (s.withFunctions g).compileIn scope mode windows e = .ok x := by
  obtain ⟨⟨x', found⟩, hrun, hx⟩ := map_eq_ok.1 h
  exact map_eq_ok.2 ⟨(x', found), (follows_extended hg).compile_of_eq he hrun, hx⟩

lemma resolveOrder_withFunctions (hg : s.functions.ExtendedBy used g) {scope : Scope}
    {order : List (Ordered ColumnExpr)} {resolved : List (Ordered Expr)}
    (horder : ∀ term ∈ order, term.target.CallsOnly used)
    (h : s.resolveOrder scope order = .ok resolved) :
    (s.withFunctions g).resolveOrder scope order = .ok resolved := by
  refine mapM_eq_ok.2 (forall₂_imp_mem (mapM_eq_ok.1 h) ?_)
  intro term hterm r hr
  simp only [bind_eq_ok, pure_eq_ok] at hr ⊢
  obtain ⟨x, hx, rfl⟩ := hr
  exact ⟨x, compileIn_withFunctions hg (horder term hterm) hx, rfl⟩

namespace Extends

lemma windowContext (hs : s.Extends used g) {scope : Scope} {placement : Placement}
    {context : WindowContext} (h : s.windowContext scope placement = .ok context) :
    (s.withFunctions g).windowContext scope placement = .ok context := by
  simp only [QueryState.windowContext, bind_eq_ok, pure_eq_ok] at h ⊢
  obtain ⟨partitionBy, hpartition, orderBy, horder, rfl⟩ := h
  exact ⟨partitionBy, hpartition, orderBy,
    resolveOrder_withFunctions hs.table hs.order horder, rfl⟩

/-- Renamed ordering terms call what they called. -/
lemma renameOrder {order : List (Ordered ColumnExpr)}
    (horder : ∀ term ∈ order, term.target.CallsOnly used) (renames : OrderedMap String) :
    ∀ term ∈ renameOrder renames order, term.target.CallsOnly used := by
  intro term hterm
  obtain ⟨old, hold, rfl⟩ := List.mem_map.1 hterm
  exact (horder old hold).rename _

lemma select (hs : s.Extends used g) {columns : List ColumnExpr} (h : s.select columns = .ok t) :
    (s.withFunctions g).select columns = .ok (t.withFunctions g) ∧ t.Extends used g := by
  constructor
  · unfold QueryState.select at h ⊢
    simp only [bind_eq_ok, throwing_eq_ok, pure_eq_ok] at h ⊢
    obtain ⟨selectors, hparse, hne, list, hlist, rfl⟩ := h
    exact ⟨selectors, hparse, hne, list, hlist, rfl⟩
  · obtain ⟨_, _, _, _, _, _, _, _, _, _, _, _, rfl⟩ := select_cases h
    exact ⟨hs.table, renameOrder (fun term hterm => hs.order term (List.mem_of_mem_filter hterm)) _⟩

lemma rename (hs : s.Extends used g) {columns : List (String × ColumnExpr)}
    (h : s.rename columns = .ok t) :
    (s.withFunctions g).rename columns = .ok (t.withFunctions g) ∧ t.Extends used g := by
  constructor
  · obtain ⟨renames, list, hrenames, rfl, hnone, rfl⟩ := rename_cases h
    unfold QueryState.rename
    simp only [bind_eq_ok]
    refine ⟨renames, hrenames, ?_⟩
    split
    · rename_i hsome
      exact absurd (hnone.symm.trans hsome) (by simp)
    · rfl
  · obtain ⟨_, _, _, _, _, rfl⟩ := rename_cases h
    exact ⟨hs.table, renameOrder hs.order _⟩

lemma groupBy (hs : s.Extends used g) {columns : List ColumnExpr} {add : Bool}
    (h : s.groupBy columns add = .ok t) :
    (s.withFunctions g).groupBy columns add = .ok (t.withFunctions g) ∧ t.Extends used g := by
  unfold QueryState.groupBy at h ⊢
  simp only [bind_eq_ok, pure_eq_ok] at h ⊢
  obtain ⟨groups, hgroups, rfl⟩ := h
  exact ⟨⟨groups, hgroups, rfl⟩, hs.table, hs.order⟩

lemma addColumn (hs : s.Extends used g) {name : String} {e : ColumnExpr} {q : Select}
    {aliases : AliasCounter} {result : Select × AliasCounter} (he : e.CallsOnly used)
    (h : s.addColumn name e q aliases = .ok result) :
    (s.withFunctions g).addColumn name e q aliases = .ok result := by
  simp only [QueryState.addColumn, bind_eq_ok, pure_eq_ok] at h ⊢
  obtain ⟨windows, hwindows, x, hx, rfl⟩ := h
  exact ⟨windows, hs.windowContext hwindows, x, compileIn_withFunctions hs.table he hx, rfl⟩

lemma addColumns (hs : s.Extends used g) {columns : List (String × ColumnExpr)} {q : Select}
    {aliases : AliasCounter} {result : Select × AliasCounter}
    (hcolumns : ∀ c ∈ columns, c.2.CallsOnly used)
    (h : s.addColumns columns q aliases = .ok result) :
    (s.withFunctions g).addColumns columns q aliases = .ok result := by
  induction columns generalizing q aliases with
  | nil => exact h
  | cons c rest ih =>
    obtain ⟨name, e⟩ := c
    simp only [QueryState.addColumns, bind_eq_ok] at h ⊢
    obtain ⟨⟨q₁, aliases₁⟩, hadd, hrest⟩ := h
    exact ⟨_, hs.addColumn (hcolumns _ List.mem_cons_self).shape hadd,
      ih (fun c hc => hcolumns c (List.mem_cons_of_mem _ hc)) hrest⟩

lemma mutate (hs : s.Extends used g) {columns : List (String × ColumnExpr)}
    (hcolumns : ∀ c ∈ columns, c.2.CallsOnly used) (h : s.mutate columns = .ok t) :
    (s.withFunctions g).mutate columns = .ok (t.withFunctions g) ∧ t.Extends used g := by
  cases columns with
  | nil =>
    cases h
    exact ⟨rfl, hs⟩
  | cons c rest =>
    simp only [QueryState.mutate, bind_eq_ok, pure_eq_ok] at h ⊢
    obtain ⟨⟨q, aliases⟩, hadd, rfl⟩ := h
    exact ⟨⟨(q, aliases), hs.addColumns hcolumns hadd, rfl⟩, hs.table, hs.order⟩

lemma filter (hs : s.Extends used g) {predicates : List ColumnExpr}
    (hpredicates : ∀ e ∈ predicates, e.CallsOnly used) (h : s.filter predicates = .ok t) :
    (s.withFunctions g).filter predicates = .ok (t.withFunctions g) ∧ t.Extends used g := by
  cases predicates with
  | nil =>
    cases h
    exact ⟨rfl, hs⟩
  | cons e rest =>
    simp only [QueryState.filter, AliasCounter.make, bind_eq_ok, pure_eq_ok] at h ⊢
    obtain ⟨context, hcontext, result, hall, list, hlist, rfl⟩ := h
    have hshaped : ∀ e' ∈ (e :: rest).map ColumnExpr.shape, e'.CallsOnly used := by
      intro e' he'
      obtain ⟨d, hd, rfl⟩ := List.mem_map.1 he'
      exact (hpredicates d hd).shape
    exact ⟨⟨context, hs.windowContext hcontext, result, compileAll_extended hs.table hshaped hall,
      list, hlist, rfl⟩, hs.table, hs.order⟩

lemma distinct (hs : s.Extends used g) {columns : List ColumnExpr}
    {computed : List (String × ColumnExpr)} {keepAll : Bool}
    (hcomputed : ∀ c ∈ computed, c.2.CallsOnly used)
    (h : s.distinct columns computed keepAll = .ok t) :
    (s.withFunctions g).distinct columns computed keepAll = .ok (t.withFunctions g) ∧
      t.Extends used g := by
  unfold QueryState.distinct at h ⊢
  simp only [throwing_eq_ok, bind_eq_ok, pure_eq_ok] at h ⊢
  obtain ⟨hkeep, given, hgiven, base, hbase, list, hlist, rfl⟩ := h
  obtain ⟨hbase', hext⟩ := hs.mutate hcomputed hbase
  exact ⟨⟨hkeep, given, hgiven, base.withFunctions g, hbase', list, hlist, rfl⟩, hext.table,
    List.forall_mem_nil _⟩

lemma arrange (hs : s.Extends used g) {terms : List ColumnExpr}
    (hterms : ∀ e ∈ terms, e.CallsOnly used) (h : s.arrange terms = .ok t) :
    (s.withFunctions g).arrange terms = .ok (t.withFunctions g) ∧ t.Extends used g := by
  cases terms with
  | nil =>
    cases h
    exact ⟨rfl, hs⟩
  | cons e rest =>
    have hadded : ∀ term ∈ (e :: rest).map (fun e => orderTerm e.shape),
        term.target.CallsOnly used := by
      intro term hterm
      obtain ⟨d, hd, rfl⟩ := List.mem_map.1 hterm
      exact (hterms d hd).shape.orderTerm
    simp only [QueryState.arrange, bind_eq_ok, pure_eq_ok] at h ⊢
    obtain ⟨resolved, hresolved, rfl⟩ := h
    refine ⟨⟨resolved, resolveOrder_withFunctions hs.table hadded hresolved, rfl⟩, hs.table, ?_⟩
    exact List.forall_mem_append.2 ⟨hs.order, hadded⟩

lemma summarize (hs : s.Extends used g) {columns : List (String × ColumnExpr)}
    (hcolumns : ∀ c ∈ columns, c.2.CallsOnly used) (h : s.summarize columns = .ok t) :
    (s.withFunctions g).summarize columns = .ok (t.withFunctions g) ∧ t.Extends used g := by
  have hshaped : ∀ c ∈ columns.map (fun c => (c.1, c.2.shape)), c.2.CallsOnly used := by
    intro c hc
    obtain ⟨d, hd, rfl⟩ := List.mem_map.1 hc
    exact (hcolumns d hd).shape
  unfold QueryState.summarize at h ⊢
  simp only [throwing_eq_ok] at h ⊢
  obtain ⟨hne, h⟩ := h
  split at h
  · simp [throw, throwThe, MonadExceptOf.throw, bind, Except.bind] at h
  · simp only [bind_eq_ok, pure_eq_ok] at h ⊢
    obtain ⟨groups, hgroups, aggregates, haggregates, rfl⟩ := h
    refine ⟨⟨hne, groups, hgroups, aggregates, ?_, rfl⟩, hs.table, List.forall_mem_nil _⟩
    refine mapM_eq_ok.2 (forall₂_imp_mem (mapM_eq_ok.1 haggregates) ?_)
    intro c hc r hr
    simp only [bind_eq_ok, pure_eq_ok] at hr ⊢
    obtain ⟨x, hx, rfl⟩ := hr
    exact ⟨x, compileIn_withFunctions hs.table (hshaped c hc) hx, rfl⟩

lemma countedColumns (hs : s.Extends used g) {scope : Scope} {columns : List ColumnExpr}
    {list : List (String × Expr)} {result : List String × List (String × Expr)}
    (hcolumns : ∀ e ∈ columns, e.CallsOnly used)
    (h : s.countedColumns scope columns list = .ok result) :
    (s.withFunctions g).countedColumns scope columns list = .ok result := by
  induction columns generalizing list result with
  | nil => exact h
  | cons e rest ih =>
    have hrest : ∀ e ∈ rest, e.CallsOnly used := fun e he => hcolumns e (List.mem_cons_of_mem _ he)
    simp only [QueryState.countedColumns] at h ⊢
    split at h
    · simp only [bind_eq_ok, pure_eq_ok] at h ⊢
      obtain ⟨first, hfirst, others, hothers, rfl⟩ := h
      exact ⟨first, hfirst, others, ih hrest hothers, rfl⟩
    · simp only [bind_eq_ok, pure_eq_ok] at h ⊢
      obtain ⟨x, hx, first, hfirst, others, hothers, rfl⟩ := h
      have hx' := compileIn_withFunctions hs.table (hcolumns e List.mem_cons_self).shape hx
      exact ⟨x, hx', first, hfirst, others, ih hrest hothers, rfl⟩

lemma count (hs : s.Extends used g) {columns : List ColumnExpr} {name : Option String}
    {sort : Bool} (hcolumns : ∀ e ∈ columns, e.CallsOnly used)
    (h : s.count columns name sort = .ok t) :
    (s.withFunctions g).count columns name sort = .ok (t.withFunctions g) ∧ t.Extends used g := by
  unfold QueryState.count at h ⊢
  simp only [AliasCounter.make, bind_eq_ok, pure_eq_ok] at h ⊢
  obtain ⟨counted, hcounted, groupColumns, hgroups, rfl⟩ := h
  exact ⟨⟨counted, hs.countedColumns hcolumns hcounted, groupColumns, hgroups, rfl⟩, hs.table,
    List.forall_mem_nil _⟩

/-- A join looks at no function, only at the dialects of its sides. -/
lemma join (hs : s.Extends used g) {keys : JoinKeys} {kind : JoinKind}
    (h : s.join t keys kind = .ok u) :
    (s.withFunctions g).join (t.withFunctions g) keys kind = .ok (u.withFunctions g) ∧
      u.Extends used g := by
  have hdialects : (s.withFunctions g).dialect = (t.withFunctions g).dialect := rfl
  unfold QueryState.join at h ⊢
  simp only [throwing_eq_ok, bind_eq_ok, pure_eq_ok] at h ⊢
  obtain ⟨_, hne, condition, hcondition, leftList, hleft, rightList, hright, rfl⟩ := h
  exact ⟨⟨not_not.2 hdialects, hne, condition, hcondition, leftList, hleft, rightList, hright, rfl⟩,
    hs.table, List.forall_mem_nil _⟩

end Extends

end QueryState

/-- The operations that occur in a request, those in joined requests included. -/
def Request.operations (r : Request) : List Operation := r.exprs.flatMap ColumnExpr.operations

section Runs

variable {catalog : Catalog} {f g : FunctionTable} {used : Operation → Prop}

lemma callsOnly_values {m : OrderedMap ColumnExpr} (h : ∀ e ∈ m.values, e.CallsOnly used) :
    ∀ c ∈ m.entries, c.2.CallsOnly used :=
  fun _ hc => h _ (List.mem_map_of_mem hc)

mutual

/-- A request that runs over a table runs over one that offers more, to the same query. -/
theorem Request.run_extended (hg : f.ExtendedBy used g) : ∀ (r : Request) {s : QueryState},
    (∀ e ∈ r.exprs, e.CallsOnly used) → r.run catalog f = .ok s →
      r.run catalog g = .ok (s.withFunctions g)
  | ⟨collection, pipeline⟩, s, hcalls, h => by
    simp only [Request.run] at h ⊢
    split at h
    · rename_i table htable
      have hstart : (QueryState.ofTable f collection table).Extends used g :=
        ⟨hg, List.forall_mem_nil _⟩
      exact runPipeline_extended hg pipeline hstart hcalls h
    · cases h

theorem runPipeline_extended (hg : f.ExtendedBy used g) : ∀ (verbs : List Verb)
    {s t : QueryState}, s.Extends used g → (∀ e ∈ pipelineExprs verbs, e.CallsOnly used) →
      runPipeline catalog f s verbs = .ok t →
      runPipeline catalog g (s.withFunctions g) verbs = .ok (t.withFunctions g)
  | [], s, t, _, _, h => by
    cases h
    rfl
  | v :: verbs, s, t, hs, hcalls, h => by
    simp only [runPipeline, bind_eq_ok] at h ⊢
    obtain ⟨u, hu, ht⟩ := h
    obtain ⟨hv, hverbs⟩ := List.forall_mem_append.1 hcalls
    obtain ⟨hrun, hext⟩ := Verb.run_extended hg v hs hv hu
    exact ⟨u.withFunctions g, hrun, runPipeline_extended hg verbs hext hverbs ht⟩

theorem Verb.run_extended (hg : f.ExtendedBy used g) : ∀ (v : Verb) {s t : QueryState},
    s.Extends used g → (∀ e ∈ v.exprs, e.CallsOnly used) → v.run catalog f s = .ok t →
      v.run catalog g (s.withFunctions g) = .ok (t.withFunctions g) ∧ t.Extends used g
  | .select _, _, _, hs, _, h => hs.select h
  | .filter _, _, _, hs, hv, h => hs.filter hv h
  | .mutate _, _, _, hs, hv, h => hs.mutate (callsOnly_values hv) h
  | .arrange _, _, _, hs, hv, h => hs.arrange hv h
  | .summarize _, _, _, hs, hv, h => hs.summarize (callsOnly_values hv) h
  | .count _ _ _, _, _, hs, hv, h => hs.count hv h
  | .groupBy _ _, _, _, hs, _, h => hs.groupBy h
  | .ungroup, _, _, hs, _, h => by
    cases h
    exact ⟨rfl, hs.table, hs.order⟩
  | .join right on how, s, t, hs, hv, h => by
    simp only [Verb.run, bind_eq_ok] at h ⊢
    obtain ⟨u, hu, hjoin⟩ := h
    obtain ⟨hrun, hext⟩ := hs.join hjoin
    exact ⟨⟨u.withFunctions g, Request.run_extended hg right hv hu, hrun⟩, hext⟩
  | .rename _, _, _, hs, _, h => hs.rename h
  | .distinct _ _ _, _, _, hs, hv, h =>
    hs.distinct (callsOnly_values fun e he => hv e (List.mem_append_right _ he)) h
  | .head _, _, _, hs, _, h => by
    cases h
    exact ⟨rfl, hs.table, hs.order⟩

end

/-- The plan shows the query and the dialect of the table, and nothing else of the table. -/
lemma Request.plan_extended {r : Request} (hg : f.ExtendedBy (· ∈ r.operations) g) {p : Plan}
    (h : r.plan catalog f = .ok p) : r.plan catalog g = .ok p := by
  obtain ⟨s, hs, rfl⟩ := map_eq_ok.1 h
  have hfunctions : s.functions = f := (Request.run_reachable r hs).functions_mem
  have hcalls : ∀ e ∈ r.exprs, e.CallsOnly (· ∈ r.operations) :=
    fun e he _ hop => List.mem_flatMap.2 ⟨e, he, hop⟩
  refine map_eq_ok.2 ⟨s.withFunctions g, Request.run_extended hg r hcalls hs, ?_⟩
  have hdialect : (s.withFunctions g).dialect = s.dialect := by
    rw [QueryState.dialect, QueryState.dialect, hfunctions]
    exact hg.dialect
  rw [QueryState.toPlan, QueryState.toPlan, hdialect]
  rfl

end Runs

namespace FunctionTable

variable {f g : FunctionTable} {operation other : Operation} {bucket mode : Mode}
  {builder : Builder}

/-- Whether a builder in a bucket can answer for a context: a scalar one can for all. -/
def Answers (bucket mode : Mode) : Prop := bucket = .scalar ∨ bucket = mode

@[simp] lemma dialect_withBuilder (f : FunctionTable) (bucket : Mode) (operation : Operation)
    (builder : Builder) : (f.withBuilder bucket operation builder).dialect = f.dialect := by
  cases bucket <;> rfl

lemma find?_withBuilder_of_ne (h : other ≠ operation) :
    (f.withBuilder bucket operation builder).find? other mode = f.find? other mode := by
  cases bucket <;>
    simp [withBuilder, withScalar, withAggregate, withWindow, find?, setEntry, h]

lemma find?_withBuilder_of_not_answers (h : ¬Answers bucket mode) :
    (f.withBuilder bucket operation builder).find? other mode = f.find? other mode := by
  cases bucket <;> cases mode <;>
    simp_all [Answers, withBuilder, withAggregate, withWindow, find?]

lemma find?_without_of_ne (h : other ≠ operation) :
    (f.without operation).find? other mode = f.find? other mode := by
  simp [without, find?, setEntry, h]

/-- Tables that agree on the operations in question extend each other. -/
lemma extendedBy_of_find?_eq {used : Operation → Prop} (hdialect : g.dialect = f.dialect)
    (h : ∀ operation, used operation → ∀ mode, g.find? operation mode = f.find? operation mode) :
    f.ExtendedBy used g ∧ g.ExtendedBy used f := by
  refine ⟨⟨hdialect, ?_⟩, ⟨hdialect.symm, ?_⟩⟩
  · intro operation hop mode builder hfind
    rwa [lookup_eq_ok, h operation hop, ← lookup_eq_ok]
  · intro operation hop mode builder hfind
    rwa [lookup_eq_ok, ← h operation hop, ← lookup_eq_ok]

/-- A builder added where none was found hides nothing. -/
lemma extendedBy_withBuilder
    (h : ∀ mode, Answers bucket mode → ∀ b, f.lookup operation mode ≠ .ok b)
    (used : Operation → Prop) : f.ExtendedBy used (f.withBuilder bucket operation builder) where
  dialect := dialect_withBuilder f bucket operation builder
  lookup := by
    intro other _ mode b hfind
    rw [lookup_eq_ok] at hfind ⊢
    by_cases hother : other = operation
    · subst hother
      have hanswers : ¬Answers bucket mode := fun ha => h mode ha b (lookup_eq_ok.2 hfind)
      rwa [find?_withBuilder_of_not_answers hanswers]
    · rwa [find?_withBuilder_of_ne hother]

end FunctionTable

/-- Function tables are conservative: a table that finds every builder which a request finds gives
the same plan. So does a table to which builders are added where none was found, and a change of
operations that the request does not use changes no plan. -/
theorem plan_conservative (catalog : Catalog) (r : Request) (f : FunctionTable) :
    (∀ g, f.ExtendedBy (· ∈ r.operations) g → ∀ p, r.plan catalog f = .ok p →
      r.plan catalog g = .ok p) ∧
    (∀ bucket operation builder,
      (∀ mode, FunctionTable.Answers bucket mode → ∀ b, f.lookup operation mode ≠ .ok b) →
      ∀ p, r.plan catalog f = .ok p →
        r.plan catalog (f.withBuilder bucket operation builder) = .ok p) ∧
    ∀ operation, operation ∉ r.operations → ∀ p,
      (∀ bucket builder, r.plan catalog (f.withBuilder bucket operation builder) = .ok p ↔
        r.plan catalog f = .ok p) ∧
      (r.plan catalog (f.without operation) = .ok p ↔ r.plan catalog f = .ok p) := by
  refine ⟨fun g hg p => Request.plan_extended hg, ?_, ?_⟩
  · intro bucket operation builder hnone p
    exact Request.plan_extended (FunctionTable.extendedBy_withBuilder hnone _)
  · intro operation hunused p
    have hne : ∀ other ∈ r.operations, other ≠ operation := by
      rintro other hother rfl
      exact hunused hother
    constructor
    · intro bucket builder
      obtain ⟨hto, hfrom⟩ := FunctionTable.extendedBy_of_find?_eq
        (FunctionTable.dialect_withBuilder f bucket operation builder)
        fun other hother mode => FunctionTable.find?_withBuilder_of_ne (hne other hother)
      exact ⟨Request.plan_extended hfrom, Request.plan_extended hto⟩
    · obtain ⟨hto, hfrom⟩ := FunctionTable.extendedBy_of_find?_eq
        (g := f.without operation) (f := f) rfl
        fun other hother mode => FunctionTable.find?_without_of_ne (hne other hother)
      exact ⟨Request.plan_extended hfrom, Request.plan_extended hto⟩

/-- A table that knows addition and nothing else. -/
def additionOnly : FunctionTable :=
  (FunctionTable.empty .postgres).withScalar .add (Template.operator "+").build

/-- A sum by which the rows are sorted downwards, joined to the table that it comes from. -/
def summingRequest : Request :=
  ⟨"people", [.mutate (.ofList [("y", .call .add [.column "x", .column "g"] [])]),
    .arrange [.call .descending [.call .add [.column "y", .literal (.int 1)] []] []],
    .join ⟨"people", [.mutate (.ofList [("z", .call .add [.column "x", .literal (.int 2)] [])])]⟩
      (.columns ["g"]) .left]⟩

lemma additionOnly_extendedBy :
    additionOnly.ExtendedBy (· ∈ summingRequest.operations) (.builtIn .postgres) where
  dialect := rfl
  lookup := by
    intro operation hop mode builder h
    have hoperations : summingRequest.operations = [.add, .descending, .add, .add] := rfl
    have hcases : operation = .add ∨ operation = .descending := by
      simpa [hoperations, or_comm] using hop
    rcases hcases with rfl | rfl
    · exact h
    · cases mode <;> cases h

/-- The request that only adds has the same plan over all functions of its dialect, with averages
added to its table, and without the subtraction that the table does not have. -/
theorem summingRequest_plan : ∃ p, summingRequest.plan peopleCatalog additionOnly = .ok p ∧
    summingRequest.plan peopleCatalog (.builtIn .postgres) = .ok p ∧
    summingRequest.plan peopleCatalog
      (additionOnly.withBuilder .window .mean (Template.overPartition "avg").build) = .ok p ∧
    summingRequest.plan peopleCatalog ((FunctionTable.builtIn .postgres).without .subtract) =
      .ok p := by
  have hok : (summingRequest.plan peopleCatalog additionOnly).isOk = true := by decide +kernel
  obtain ⟨p, hp⟩ := exists_eq_ok hok
  obtain ⟨hmore, hadded, _⟩ := plan_conservative peopleCatalog summingRequest additionOnly
  obtain ⟨_, _, hedited⟩ := plan_conservative peopleCatalog summingRequest (.builtIn .postgres)
  have hbuiltIn := hmore _ additionOnly_extendedBy p hp
  refine ⟨p, hp, hbuiltIn, ?_, ?_⟩
  · refine hadded .window .mean _ ?_ p hp
    rintro mode (h | rfl) b hb
    · cases h
    · cases hb
  · exact ((hedited .subtract (by decide +kernel) p).2).2 hbuiltIn

end PipelineSql
