import PipelineSql.Proofs.Reachability

/-!
# What all expressions of a query have in common

The verbs put expressions together from columns and constants with few means: builders, windows,
conjunctions and equations of keys, merged keys, counts and redirected columns. A property that
all of these pass on holds of every expression in every stage of every query.
-/

namespace PipelineSql

open Sql (Expr Ordered Over Select TableAlias AliasCounter)

/-- A property of expressions that everything a query is built with passes on. -/
structure Inherited (P : Expr → Prop) : Prop where
  column : ∀ r, P (.column r)
  value : ∀ v, P (.value v)
  and : ∀ l r, P l → P r → P (.and l r)
  equals : ∀ l r, P l → P r → P (.equals l r)
  coalesce : ∀ xs, (∀ x ∈ xs, P x) → P (.coalesce xs)
  countAll : P .countAll
  replaceAlias : ∀ e old new, P e → P (e.replaceAlias old new)
  built : ∀ dialect operation mode builder a e,
    (FunctionTable.builtIn dialect).lookup operation mode = .ok builder →
    (∀ x ∈ a.all, P x) → builder a = .ok (.expression e) → P e
  window : ∀ dialect operation mode builder a call clause,
    (FunctionTable.builtIn dialect).lookup operation mode = .ok builder →
    (∀ x ∈ a.all, P x) → builder a = .ok (.window call) →
    (∀ x ∈ clause.partitionBy, P x) → (∀ t ∈ clause.orderBy, P t.target) →
    P (.window call.function clause)

namespace Inherited

variable {P : Expr → Prop} (hP : Inherited P)

/-- The property holds of every expression of a query itself. -/
def Holds (P : Expr → Prop) (q : Select) : Prop := ∀ e ∈ q.exprs, P e

lemma holds_of_clauses {q : Select} (hcolumns : ∀ c ∈ q.columns, P c.2) (hcondition : P q.condition)
    (hgroup : ∀ e ∈ q.groupBy, P e) (horder : ∀ t ∈ q.orderBy, P t.target)
    (hjoins : ∀ j ∈ q.joins, P j.condition) : Holds P q := by
  intro e he
  rcases Select.mem_exprs.1 he with ⟨c, hc, rfl⟩ | rfl | he | ⟨t, ht, rfl⟩ | ⟨j, hj, rfl⟩
  · exact hcolumns c hc
  · exact hcondition
  · exact hgroup e he
  · exact horder t ht
  · exact hjoins j hj

section Clauses

variable {q : Select} (h : Holds P q)

include h

lemma Holds.column {c : String × Expr} (hc : c ∈ q.columns) : P c.2 :=
  h c.2 (Select.mem_exprs.2 (Or.inl ⟨c, hc, rfl⟩))

lemma Holds.condition : P q.condition := h _ (Select.mem_exprs.2 (Or.inr (Or.inl rfl)))

lemma Holds.group : ∀ e ∈ q.groupBy, P e := fun e he =>
  h e (Select.mem_exprs.2 (Or.inr (Or.inr (Or.inl he))))

lemma Holds.order : ∀ t ∈ q.orderBy, P t.target := fun t ht =>
  h t.target (Select.mem_exprs.2 (Or.inr (Or.inr (Or.inr (Or.inl ⟨t, ht, rfl⟩)))))

lemma Holds.joins : ∀ j ∈ q.joins, P j.condition := fun j hj =>
  h j.condition (Select.mem_exprs.2 (Or.inr (Or.inr (Or.inr (Or.inr ⟨j, hj, rfl⟩)))))

lemma Holds.lookup {name : String} {x : Expr}
    (hx : (Scope.ofSelectList q).lookup name = .ok x) : P x :=
  h.column (Scope.mem_of_lookup_ofSelectList hx)

end Clauses

/-- An edit of the columns, the grouping and the ordering. -/
lemma edit {q r : Select} (h : q.Everywhere (Holds P)) (hsource : r.source = q.source)
    (hjoins : r.joins = q.joins) (hcondition : r.condition = q.condition)
    (hcolumns : ∀ c ∈ r.columns, P c.2) (hgroup : ∀ e ∈ r.groupBy, P e)
    (horder : ∀ t ∈ r.orderBy, P t.target) : r.Everywhere (Holds P) :=
  h.edit (Select.items_congr hsource hjoins)
    (holds_of_clauses hcolumns (hcondition ▸ h.root.condition) hgroup horder
      (hjoins ▸ h.root.joins))

/-- A query that reads from another. -/
lemma reading {q r : Select} {a : TableAlias} (h : q.Everywhere (Holds P))
    (hsource : r.source = some (.subquery q a)) (hjoins : r.joins = [])
    (hcolumns : ∀ c ∈ r.columns, P c.2) (hcondition : P r.condition)
    (hgroup : ∀ e ∈ r.groupBy, P e) (horder : ∀ t ∈ r.orderBy, P t.target) :
    r.Everywhere (Holds P) := by
  apply Select.Everywhere.of_items
  · exact holds_of_clauses hcolumns hcondition hgroup horder (by simp [hjoins])
  · intro inner b hmem
    simp only [Select.items, hsource, hjoins, Option.toList_some, List.map_nil, List.append_nil,
      List.mem_singleton, Sql.Source.subquery.injEq] at hmem
    exact hmem.1 ▸ h

include hP

lemma reading_columns {q : Select} {list : List (String × Expr)} {a : TableAlias}
    (h : q.Everywhere (Holds P)) (hcolumns : ∀ c ∈ list, P c.2) :
    (Select.reading list q a).Everywhere (Holds P) :=
  reading h rfl rfl hcolumns (hP.value _) (by simp [Select.reading]) (by simp [Select.reading])

lemma of_isColumn {e : Expr} (h : e.isColumn = true) : P e := by
  cases e with
  | column r => exact hP.column r
  | _ => cases h

lemma conjunction {es : List Expr} (h : ∀ e ∈ es, P e) : P (Expr.conjunction es) := by
  have hfold : ∀ (rest : List Expr) (e : Expr), P e → (∀ x ∈ rest, P x) →
      P (rest.foldl .and e) := by
    intro rest
    induction rest with
    | nil => exact fun e he _ => he
    | cons x rest ih =>
      intro e he hrest
      apply ih
      · exact hP.and e x he (hrest x List.mem_cons_self)
      · exact fun y hy => hrest y (List.mem_cons_of_mem _ hy)
  cases es with
  | nil => exact hP.value _
  | cons e es =>
    exact hfold es e (h e List.mem_cons_self) fun x hx => h x (List.mem_cons_of_mem _ hx)

lemma lookup_ofSubquery {q : Select} {a : TableAlias} {name : String} {x : Expr}
    (h : (Scope.ofSubquery q a).lookup name = .ok x) : P x :=
  hP.of_isColumn (QueryState.isColumn_lookup_ofSubquery h)

section Compiling

/-- What windows are partitioned and ordered by. -/
structure Context (P : Expr → Prop) (c : WindowContext) : Prop where
  partitionBy : ∀ x ∈ c.partitionBy, P x
  orderBy : ∀ t ∈ c.orderBy, P t.target

lemma rules {dialect : Dialect} (env : CompileEnv) (mode : Mode)
    (hf : env.functions = .builtIn dialect) (hwindows : Context P env.windows) :
    CompileRules env mode (fun _ => P) P fun w => P w.expression where
  grow := fun _ _ _ h => h
  weaken := fun _ _ h => h
  literal := hP.value
  plain := fun operation builder a r hb h ha =>
    hP.built dialect operation mode builder a r (hf ▸ hb) ha h
  built := fun operation builder a r _ hb h ha =>
    hP.built dialect operation mode builder a r (hf ▸ hb) ha h
  placed := by
    intro operation builder a call found hb h ha
    obtain ⟨t, ht, _⟩ := FunctionTable.find?_builtIn (FunctionTable.lookup_eq_ok.1 (hf ▸ hb))
    subst ht
    have hterm := (Template.build_window h).2
    have hwindow : P (.window call.function (env.windows.overClause call.kind)) := by
      refine hP.window dialect operation mode _ a call _ (hf ▸ hb) ha h ?_ ?_
      · cases hkind : call.kind with
        | aggregate | cumulative => exact hwindows.partitionBy
        | ranking term => cases term <;> exact hwindows.partitionBy
      · cases hkind : call.kind with
        | aggregate => simp [WindowContext.overClause]
        | cumulative => exact hwindows.orderBy
        | ranking term =>
          cases term with
          | none => exact hwindows.orderBy
          | some term => simpa [WindowContext.overClause] using ha _ (hterm term hkind)
    refine ⟨?_, hwindow⟩
    unfold WindowContext.place
    split
    · exact hwindow
    · exact hP.column _

variable {s : QueryState} {dialect : Dialect} {scope : Scope}

lemma compileIn (hf : s.functions = .builtIn dialect) {mode : Mode} {windows : WindowContext}
    {e : ColumnExpr} {x : Expr} (hwindows : Context P windows)
    (hscope : ∀ n y, scope.lookup n = .ok y → P y)
    (h : s.compileIn scope mode windows e = .ok x) : P x := by
  have hrules := hP.rules ⟨s.functions, scope, windows⟩ mode hf hwindows
  obtain ⟨_, hx⟩ := hrules.compileExpr h fun n _ y hy => hscope n y hy
  exact hx

omit hP in
lemma context_empty : Context P {} := ⟨by simp, by simp⟩

lemma windowContext (hf : s.functions = .builtIn dialect) {placement : Placement}
    {context : WindowContext} (hscope : ∀ n y, scope.lookup n = .ok y → P y)
    (h : s.windowContext scope placement = .ok context) : Context P context := by
  obtain ⟨_, hpartition, horder⟩ := QueryState.windowContext_cases h
  constructor
  · intro x hx
    obtain ⟨g, _, hlookup⟩ := hpartition x hx
    exact hscope g x hlookup
  · intro t ht
    obtain ⟨term, _, hcompile⟩ := horder t ht
    exact hP.compileIn hf context_empty hscope hcompile

end Compiling

section Verbs

variable {s t u : QueryState} {dialect : Dialect}

lemma wrapIf {needed : Bool} {q base : Select} {aliases aliases' : AliasCounter}
    (h : QueryState.wrapIf needed q aliases = (base, aliases')) (hq : q.Everywhere (Holds P)) :
    base.Everywhere (Holds P) := by
  rcases QueryState.wrapIf_cases h with ⟨_, rfl, _⟩ | ⟨rfl, _⟩
  · exact hq
  · apply hP.reading_columns hq
    intro c hc
    obtain ⟨d, _, rfl⟩ := List.mem_map.1 hc
    exact hP.column _

lemma select {columns : List ColumnExpr} (hs : s.last.Everywhere (Holds P))
    (h : s.select columns = .ok t) : t.last.Everywhere (Holds P) := by
  obtain ⟨_, _, _, base, aliases, list, _, _, _, _, hwrap, hlist, rfl⟩ :=
    QueryState.select_cases h
  have hbase := hP.wrapIf hwrap hs
  refine edit hbase rfl rfl rfl ?_ hbase.root.group hbase.root.order
  intro c hc
  obtain ⟨_, _, _, hlookup⟩ := exists_of_forall₂ hlist hc
  exact hbase.root.lookup hlookup

omit hP in
lemma rename {columns : List (String × ColumnExpr)} (hs : s.last.Everywhere (Holds P))
    (h : s.rename columns = .ok t) : t.last.Everywhere (Holds P) := by
  obtain ⟨renames, list, _, rfl, _, rfl⟩ := QueryState.rename_cases h
  refine edit hs rfl rfl rfl ?_ hs.root.group hs.root.order
  intro c hc
  obtain ⟨d, hd, rfl⟩ := List.mem_map.1 hc
  have hd : P d.2 := hs.root.column hd
  exact hd

lemma addColumn {name : String} {e : ColumnExpr} {q q' : Select}
    {aliases aliases' : AliasCounter} (hf : s.functions = .builtIn dialect)
    (hq : q.Everywhere (Holds P)) (h : s.addColumn name e q aliases = .ok (q', aliases')) :
    q'.Everywhere (Holds P) := by
  obtain ⟨base, windows, x, hwrap, hwindows, hx, rfl⟩ := QueryState.addColumn_cases h
  have hbase := hP.wrapIf hwrap hq
  have hscope : ∀ n y, (Scope.ofSelectList base).lookup n = .ok y → P y := fun n y hy =>
    hbase.root.lookup hy
  refine edit hbase rfl rfl rfl ?_ hbase.root.group hbase.root.order
  intro c hc
  rcases mem_putEntry hc with rfl | hc
  · exact hP.compileIn hf (hP.windowContext hf hscope hwindows) hscope hx
  · exact hbase.root.column hc

lemma mutate {columns : List (String × ColumnExpr)} (hf : s.functions = .builtIn dialect)
    (hs : s.last.Everywhere (Holds P)) (h : s.mutate columns = .ok t) :
    t.last.Everywhere (Holds P) := by
  rcases QueryState.mutate_cases h with ⟨_, rfl⟩ | ⟨q, aliases, hadd, rfl⟩
  · exact hs
  · refine QueryState.addColumns_induction (motive := fun q _ => q.Everywhere (Holds P)) ?_ hs hadd
    intro name e q aliases q' aliases' hq hstep
    exact hP.addColumn hf hq hstep

lemma filter {predicates : List ColumnExpr} (hf : s.functions = .builtIn dialect)
    (hs : s.last.Everywhere (Holds P)) (h : s.filter predicates = .ok t) :
    t.last.Everywhere (Holds P) := by
  rcases QueryState.filter_cases h with ⟨_, rfl⟩ | ⟨subquery, windows, scope, context, conditions,
    found, inner, list, _, _, rfl, hcontext, hall, hinner, hlist, rfl⟩
  · exact hs
  have hscope : ∀ n y, (Scope.ofSubquery s.last subquery).lookup n = .ok y → P y := fun n y hy =>
    hP.lookup_ofSubquery hy
  have hrules := hP.rules ⟨s.functions, .ofSubquery s.last subquery, context⟩ .window hf
    (hP.windowContext hf hscope hcontext)
  obtain ⟨hconditions, hfound⟩ := hrules.compileAll hall fun _ _ n _ y hy => hscope n y hy
  have hin : inner.Everywhere (Holds P) := by
    rw [hinner]
    apply hP.reading_columns hs
    intro c hc
    rcases List.mem_append.1 hc with hc | hc
    · rw [(Scope.mem_selectList_ofSubquery hc).1]
      exact hP.column _
    · obtain ⟨w, hw, rfl⟩ := List.mem_map.1 hc
      exact hfound w hw
  refine reading hin rfl rfl ?_ ?_ (by simp [QueryState.push, Select.reading])
    (by simp [QueryState.push, Select.reading])
  · intro c hc
    exact hP.lookup_ofSubquery ((Scope.project_eq_ok.1 hlist).2 c hc)
  · apply hP.conjunction
    intro e he
    obtain ⟨x, hx, rfl⟩ := List.mem_map.1 he
    exact hP.replaceAlias x subquery windows (hconditions x hx)

lemma distinct {columns : List ColumnExpr} {computed : List (String × ColumnExpr)}
    {keepAll : Bool} (hf : s.functions = .builtIn dialect) (hs : s.last.Everywhere (Holds P))
    (h : s.distinct columns computed keepAll = .ok t) : t.last.Everywhere (Holds P) := by
  obtain ⟨_, base, names, inner, aliases, list, _, hbase, _, hwrap, hlist, rfl⟩ :=
    QueryState.distinct_cases h
  have hinner := hP.wrapIf hwrap (hP.mutate hf hs hbase)
  refine edit hinner rfl rfl rfl ?_ hinner.root.group hinner.root.order
  intro c hc
  exact hinner.root.lookup ((Scope.project_eq_ok.1 hlist).2 c hc)

lemma arrange {terms : List ColumnExpr} (hf : s.functions = .builtIn dialect)
    (hs : s.last.Everywhere (Holds P)) (h : s.arrange terms = .ok t) :
    t.last.Everywhere (Holds P) := by
  rcases QueryState.arrange_cases h with rfl | ⟨base, aliases, resolved, hwrap, hresolved, rfl⟩
  · exact hs
  have hbase := hP.wrapIf hwrap hs
  refine edit hbase rfl rfl rfl (fun c hc => hbase.root.column hc) hbase.root.group ?_
  intro t ht
  rcases List.mem_append.1 ht with ht | ht
  · exact hbase.root.order t ht
  · obtain ⟨term, _, hterm⟩ := QueryState.resolveOrder_cases hresolved t ht
    exact hP.compileIn hf context_empty (fun n y hy => hbase.root.lookup hy) hterm

lemma summarize {columns : List (String × ColumnExpr)} (hf : s.functions = .builtIn dialect)
    (hs : s.last.Everywhere (Holds P)) (h : s.summarize columns = .ok t) :
    t.last.Everywhere (Holds P) := by
  obtain ⟨shaped, base, aliases, groups, aggregates, _, _, _, hwrap, hgroups, haggregates, rfl⟩ :=
    QueryState.summarize_cases h
  have hbase := hP.wrapIf hwrap hs
  have hgroup : ∀ c ∈ groups, P c.2 := fun c hc =>
    hbase.root.lookup ((Scope.project_eq_ok.1 hgroups).2 c hc)
  refine edit hbase rfl rfl rfl ?_ ?_ (by simp [QueryState.pushWith, QueryState.push])
  · intro c hc
    rcases List.mem_append.1 hc with hc | hc
    · exact hgroup c hc
    · obtain ⟨d, _, _, hcompile⟩ := exists_of_forall₂ haggregates hc
      exact hP.compileIn hf context_empty (fun n y hy => hbase.root.lookup hy) hcompile
  · intro e he
    obtain ⟨c, hc, rfl⟩ := List.mem_map.1 he
    exact hgroup c hc

lemma count {columns : List ColumnExpr} {name : Option String} {sort : Bool}
    (hf : s.functions = .builtIn dialect) (hs : s.last.Everywhere (Holds P))
    (h : s.count columns name sort = .ok t) : t.last.Everywhere (Holds P) := by
  obtain ⟨subquery, grouped, scope, counted, list, inner, groups, groupColumns, _, _, rfl,
    hcounted, hinner, _, hgroups, rfl⟩ := QueryState.count_cases h
  have hin : inner.Everywhere (Holds P) := by
    rw [hinner]
    apply hP.reading_columns hs
    intro c hc
    rcases QueryState.countedColumns_cases hcounted c hc with hc | ⟨e, _, hx⟩
    · rw [(Scope.mem_selectList_ofSubquery hc).1]
      exact hP.column _
    · exact hP.compileIn hf context_empty (fun n y hy => hP.lookup_ofSubquery hy) hx
  have hgroup : ∀ c ∈ groupColumns, P c.2 := fun c hc =>
    hP.lookup_ofSubquery ((Scope.project_eq_ok.1 hgroups).2 c hc)
  refine reading hin rfl rfl ?_ (hP.value _) ?_ ?_
  · intro c hc
    rcases List.mem_append.1 hc with hc | hc
    · exact hgroup c hc
    · obtain rfl := List.mem_singleton.1 hc
      exact hP.countAll
  · intro e he
    obtain ⟨c, hc, rfl⟩ := List.mem_map.1 he
    exact hgroup c hc
  · intro t ht
    cases sort with
    | false => simp [QueryState.pushWith, QueryState.push] at ht
    | true =>
      simp only [QueryState.pushWith, QueryState.push, if_true, List.mem_singleton] at ht
      rw [ht]
      exact hP.countAll

lemma sharedKey {l r : Expr} (hl : P l) (hr : P r) (kind : JoinKind) : P (kind.sharedKey l r) := by
  cases kind with
  | inner | left => exact hl
  | right => exact hr
  | full =>
    apply hP.coalesce
    simpa using ⟨hl, hr⟩

lemma join {keys : JoinKeys} {kind : JoinKind} (hs : s.last.Everywhere (Holds P))
    (ht : t.last.Everywhere (Holds P)) (h : s.join t keys kind = .ok u) :
    u.last.Everywhere (Holds P) := by
  obtain ⟨pairs, lhs, rhs, left, right, condition, leftList, rightList, _, _, _, _, _, rfl, rfl,
    hcondition, hleft, hright, rfl⟩ := QueryState.join_cases h
  have hcond : P condition := by
    obtain ⟨equations, rfl, heach⟩ := QueryState.joinCondition_cases hcondition
    apply hP.conjunction
    intro e he
    obtain ⟨_, _, l, r, hl, hr, rfl⟩ := heach e he
    exact hP.equals l r (hP.lookup_ofSubquery hl) (hP.lookup_ofSubquery hr)
  apply Select.Everywhere.of_items
  · apply holds_of_clauses
    · intro c hc
      simp only [QueryState.pushWith, QueryState.push, QueryState.columns_joinStage] at hc
      rcases List.mem_append.1 hc with hc | hc
      · obtain ⟨n, _, x, hx, hcases⟩ := exists_of_forall₂ hleft hc
        rcases hcases with ⟨_, y, hy, rfl⟩ | ⟨_, rfl⟩
        · exact hP.sharedKey (hP.lookup_ofSubquery hx) (hP.lookup_ofSubquery hy) kind
        · exact hP.lookup_ofSubquery hx
      · obtain ⟨n, _, _, hlookup⟩ := exists_of_forall₂ hright hc
        exact hP.lookup_ofSubquery hlookup
    · simp only [QueryState.pushWith, QueryState.push, QueryState.condition_joinStage]
      exact hP.value _
    · simp [QueryState.pushWith, QueryState.push]
    · simp [QueryState.pushWith, QueryState.push]
    · intro j hj
      rw [QueryState.condition_of_mem_joinStage hj]
      exact hcond
  · intro inner a hmem
    rcases QueryState.mem_items_joinStage.1 hmem with he | he
    · cases he
      exact hs
    · cases he
      exact ht

lemma step (hf : s.functions = .builtIn dialect) (hs : s.last.Everywhere (Holds P))
    (h : Step s t) : t.last.Everywhere (Holds P) := by
  cases h with
  | select h => exact hP.select hs h
  | rename h => exact rename hs h
  | filter h => exact hP.filter hf hs h
  | mutate h => exact hP.mutate hf hs h
  | arrange h => exact hP.arrange hf hs h
  | summarize h => exact hP.summarize hf hs h
  | count h => exact hP.count hf hs h
  | distinct h => exact hP.distinct hf hs h
  | head n => exact edit hs rfl rfl rfl (fun _ hc => hs.root.column hc) hs.root.group hs.root.order
  | groupBy h =>
    obtain ⟨groups, rfl⟩ := QueryState.groupBy_cases h
    exact hs
  | ungroup => exact hs

lemma ofTable (f : FunctionTable) (collection : String) (info : TableInfo) :
    (QueryState.ofTable f collection info).last.Everywhere (Holds P) := by
  apply Select.Everywhere.of_items
  · refine holds_of_clauses ?_ (hP.value _) (by simp [QueryState.ofTable])
      (by simp [QueryState.ofTable]) (by simp [QueryState.ofTable])
    intro c hc
    obtain ⟨d, _, rfl⟩ := List.mem_map.1 hc
    exact hP.column _
  · intro inner a hmem
    simp [QueryState.ofTable, Select.items] at hmem

/-- Every expression in every stage of a query has a property that is passed on. -/
theorem reachable {tables : Set TableInfo}
    (h : Reachable tables {f | ∃ dialect, f = .builtIn dialect} s) :
    s.last.Everywhere (Holds P) := by
  induction h with
  | table collection _ _ => exact hP.ofTable _ collection _
  | step hs hstep ih =>
    obtain ⟨dialect, hf⟩ := hs.functions_mem
    exact hP.step hf ih hstep
  | join _ _ hjoin ihs iht => exact hP.join ihs iht hjoin

end Verbs

end Inherited

end PipelineSql
