import PipelineSql.Proofs.Reachability
import PipelineSql.Proofs.Windows

/-!
# Window functions stand where SQL allows them

No window function gets into a condition or a grouping, into another window function or into an
aggregate. A name can stand for a whole expression of the select list, so this rests on the tests
by which verbs decide to read a query through a subquery first.
-/

namespace PipelineSql

open Sql (Expr Ordered Select TableAlias AliasCounter)

namespace Sql.Select

/-- Conditions and groupings hold no window function, groups are columns, and the windows of every
expression are where SQL allows them. -/
structure WindowsPlaced (q : Select) : Prop where
  condition : q.condition.WindowFree
  joins : ∀ j ∈ q.joins, j.condition.WindowFree
  groupBy : ∀ e ∈ q.groupBy, e.isColumn = true ∧ e.WindowFree
  exprs : ∀ e ∈ q.exprs, e.WindowsPlaced

lemma WindowsPlaced.of_clauses {q : Select} (hcondition : q.condition.WindowFree)
    (hjoins : ∀ j ∈ q.joins, j.condition.WindowFree)
    (hgroup : ∀ e ∈ q.groupBy, e.isColumn = true)
    (hcolumns : ∀ c ∈ q.columns, c.2.WindowsPlaced)
    (horder : ∀ t ∈ q.orderBy, t.target.WindowsPlaced) : q.WindowsPlaced where
  condition := hcondition
  joins := hjoins
  groupBy := fun e he => ⟨hgroup e he, Expr.windowFree_of_isColumn (hgroup e he)⟩
  exprs := by
    intro e he
    rcases mem_exprs.1 he with ⟨c, hc, rfl⟩ | rfl | he | ⟨t, ht, rfl⟩ | ⟨j, hj, rfl⟩
    · exact hcolumns c hc
    · exact hcondition.windowsPlaced
    · exact Expr.windowsPlaced_of_isColumn (hgroup e he)
    · exact horder t ht
    · exact (hjoins j hj).windowsPlaced

namespace WindowsPlaced

variable {q : Select}

lemma column (h : q.WindowsPlaced) {c : String × Expr} (hc : c ∈ q.columns) :
    c.2.WindowsPlaced :=
  h.exprs c.2 (mem_exprs.2 (Or.inl ⟨c, hc, rfl⟩))

lemma order (h : q.WindowsPlaced) : ∀ t ∈ q.orderBy, t.target.WindowsPlaced := fun t ht =>
  h.exprs t.target (mem_exprs.2 (Or.inr (Or.inr (Or.inr (Or.inl ⟨t, ht, rfl⟩)))))

lemma group (h : q.WindowsPlaced) : ∀ e ∈ q.groupBy, e.isColumn = true := fun e he =>
  (h.groupBy e he).1

lemma lookup (h : q.WindowsPlaced) {name : String} {x : Expr}
    (hx : (Scope.ofSelectList q).lookup name = .ok x) : x.WindowsPlaced :=
  h.column (Scope.mem_of_lookup_ofSelectList hx)

/-- An edit of the columns, the grouping and the ordering. -/
lemma edit {r : Select} (h : q.Everywhere WindowsPlaced) (hsource : r.source = q.source)
    (hjoins : r.joins = q.joins) (hcondition : r.condition = q.condition)
    (hcolumns : ∀ c ∈ r.columns, c.2.WindowsPlaced)
    (hgroup : ∀ e ∈ r.groupBy, e.isColumn = true)
    (horder : ∀ t ∈ r.orderBy, t.target.WindowsPlaced) : r.Everywhere WindowsPlaced :=
  h.edit (items_congr hsource hjoins) (.of_clauses (hcondition ▸ h.root.condition)
    (hjoins ▸ h.root.joins) hgroup hcolumns horder)

/-- A query that reads from another. -/
lemma reading {r : Select} {a : TableAlias} (h : q.Everywhere WindowsPlaced)
    (hsource : r.source = some (.subquery q a)) (hjoins : r.joins = [])
    (hcondition : r.condition.WindowFree) (hgroup : ∀ e ∈ r.groupBy, e.isColumn = true)
    (hcolumns : ∀ c ∈ r.columns, c.2.WindowsPlaced)
    (horder : ∀ t ∈ r.orderBy, t.target.WindowsPlaced) : r.Everywhere WindowsPlaced := by
  refine .of_items (.of_clauses hcondition (by simp [hjoins]) hgroup hcolumns horder) ?_
  intro inner b hmem
  simp only [items, hsource, hjoins, Option.toList_some, List.map_nil, List.append_nil,
    List.mem_singleton, Source.subquery.injEq] at hmem
  exact hmem.1 ▸ h

lemma reading_columns {list : List (String × Expr)} {a : TableAlias}
    (h : q.Everywhere WindowsPlaced) (hcolumns : ∀ c ∈ list, c.2.WindowsPlaced) :
    (Select.reading list q a).Everywhere WindowsPlaced :=
  reading h rfl rfl rfl (by simp [Select.reading]) hcolumns (by simp [Select.reading])

end WindowsPlaced

end Sql.Select

open Sql.Select

namespace QueryState

lemma windowsPlaced_wrapIf {needed : Bool} {q base : Select} {aliases aliases' : AliasCounter}
    (h : wrapIf needed q aliases = (base, aliases')) (hq : q.Everywhere WindowsPlaced) :
    base.Everywhere WindowsPlaced := by
  rcases wrapIf_cases h with ⟨_, rfl, _⟩ | ⟨rfl, _⟩
  · exact hq
  · refine WindowsPlaced.reading_columns hq ?_
    intro c hc
    obtain ⟨d, _, rfl⟩ := List.mem_map.1 hc
    rfl

section Compiled

variable {s : QueryState} {dialect : Dialect} {scope : Scope}

lemma windowFree_compileIn (hf : s.functions = .builtIn dialect) {mode : Mode} {e : ColumnExpr}
    {x : Expr} (hmode : mode ≠ .window)
    (hreads : ∀ n ∈ e.reads, ∀ y, scope.lookup n = .ok y → y.isColumn = true)
    (h : s.compileIn scope mode {} e = .ok x) : x.WindowFree := by
  have rules := windowFreeRules ⟨s.functions, scope, {}⟩ mode hf fun hw => absurd hw hmode
  obtain ⟨_, hx⟩ := rules.compileExpr h fun n hn y hy =>
    Expr.windowFree_of_isColumn (hreads n hn y hy)
  exact hx

lemma plain_windowContext (hf : s.functions = .builtIn dialect) {placement : Placement}
    {context : WindowContext}
    (hcolumns : ∀ n ∈ s.windowColumns, ∀ y, scope.lookup n = .ok y → y.isColumn = true)
    (h : s.windowContext scope placement = .ok context) : context.Plain := by
  obtain ⟨_, hpartition, horder⟩ := windowContext_cases h
  constructor
  · intro x hx
    obtain ⟨g, hg, hlookup⟩ := hpartition x hx
    exact hcolumns g (OrderedSet.mem_extend.2 (Or.inl hg)) x hlookup
  · intro r hr
    obtain ⟨term, hterm, hcompile⟩ := horder r hr
    refine windowFree_compileIn hf (by simp) ?_ hcompile
    intro n hn
    exact hcolumns n (OrderedSet.mem_extend.2 (Or.inr (List.mem_flatMap.2 ⟨term, hterm, hn⟩)))

end Compiled

lemma windowsPlaced_select {s t : QueryState} {columns : List ColumnExpr}
    (hs : s.last.Everywhere WindowsPlaced) (h : s.select columns = .ok t) :
    t.last.Everywhere WindowsPlaced := by
  obtain ⟨_, _, _, base, aliases, list, _, _, _, _, hwrap, hlist, rfl⟩ := select_cases h
  have hbase := windowsPlaced_wrapIf hwrap hs
  refine WindowsPlaced.edit hbase rfl rfl rfl ?_ hbase.root.group hbase.root.order
  intro c hc
  obtain ⟨_, _, _, hlookup⟩ := exists_of_forall₂ hlist hc
  exact hbase.root.lookup hlookup

lemma windowsPlaced_rename {s t : QueryState} {columns : List (String × ColumnExpr)}
    (hs : s.last.Everywhere WindowsPlaced) (h : s.rename columns = .ok t) :
    t.last.Everywhere WindowsPlaced := by
  obtain ⟨renames, list, _, rfl, _, rfl⟩ := rename_cases h
  refine WindowsPlaced.edit hs rfl rfl rfl ?_ hs.root.group hs.root.order
  intro c hc
  obtain ⟨d, hd, rfl⟩ := List.mem_map.1 hc
  have hplaced : d.2.WindowsPlaced := hs.root.column hd
  exact hplaced

lemma windowsPlaced_addColumn {s : QueryState} {dialect : Dialect} {name : String}
    {e : ColumnExpr} {q q' : Select} {aliases aliases' : AliasCounter}
    (hf : s.functions = .builtIn dialect) (hq : q.Everywhere WindowsPlaced)
    (h : s.addColumn name e q aliases = .ok (q', aliases')) : q'.Everywhere WindowsPlaced := by
  obtain ⟨base, windows, x, hwrap, hwindows, hx, rfl⟩ := addColumn_cases h
  have hbase := windowsPlaced_wrapIf hwrap hq
  -- Names of the expression, of the grouping and of the ordering stand for columns after the wrap.
  have hcolumn : ∀ n ∈ e.reads ++ s.windowColumns.toList, ∀ y,
      (Scope.ofSelectList base).lookup n = .ok y → y.isColumn = true := by
    intro n hn y hy
    refine isColumn_of_wrapIf hwrap ?_ hn hy
    intro hneeded
    simp only [Bool.or_eq_false_iff] at hneeded
    exact hneeded.2
  have hplain := plain_windowContext hf (fun n hn => hcolumn n (List.mem_append_right _ hn)) hwindows
  have rules := inPlaceRules ⟨s.functions, .ofSelectList base, windows⟩ hf hplain
  refine WindowsPlaced.edit hbase rfl rfl rfl ?_ hbase.root.group hbase.root.order
  intro c hc
  rcases mem_putEntry hc with rfl | hc
  · obtain ⟨_, hplaced⟩ := rules.compileExpr hx fun n hn y hy =>
      Expr.windowFree_of_isColumn (hcolumn n (List.mem_append_left _ hn) y hy)
    exact hplaced
  · exact hbase.root.column hc

lemma windowsPlaced_mutate {s t : QueryState} {dialect : Dialect}
    {columns : List (String × ColumnExpr)} (hf : s.functions = .builtIn dialect)
    (hs : s.last.Everywhere WindowsPlaced) (h : s.mutate columns = .ok t) :
    t.last.Everywhere WindowsPlaced := by
  rcases mutate_cases h with ⟨_, rfl⟩ | ⟨q, aliases, hadd, rfl⟩
  · exact hs
  · refine addColumns_induction (motive := fun q _ => q.Everywhere WindowsPlaced) ?_ hs hadd
    intro name e q aliases q' aliases' hq hstep
    exact windowsPlaced_addColumn hf hq hstep

lemma windowsPlaced_filter {s t : QueryState} {dialect : Dialect} {predicates : List ColumnExpr}
    (hf : s.functions = .builtIn dialect) (hs : s.last.Everywhere WindowsPlaced)
    (h : s.filter predicates = .ok t) : t.last.Everywhere WindowsPlaced := by
  rcases filter_cases h with ⟨_, rfl⟩ | ⟨subquery, windows, scope, context, conditions, found, inner,
    list, _, _, rfl, hcontext, hall, hinner, hlist, rfl⟩
  · exact hs
  have hplain := plain_windowContext hf (fun n _ y hy => isColumn_lookup_ofSubquery hy) hcontext
  have rules := windowFreeRules ⟨s.functions, .ofSubquery s.last subquery, context⟩ .window hf
    fun _ => ⟨hplain, windows, (windowContext_cases hcontext).1⟩
  obtain ⟨hconditions, hfound⟩ := rules.compileAll hall fun _ _ n _ y hy =>
    Expr.windowFree_of_isColumn (isColumn_lookup_ofSubquery hy)
  have hin : inner.Everywhere WindowsPlaced := by
    rw [hinner]
    refine WindowsPlaced.reading_columns hs ?_
    intro c hc
    rcases List.mem_append.1 hc with hc | hc
    · rw [(Scope.mem_selectList_ofSubquery hc).1]
      rfl
    · obtain ⟨w, hw, rfl⟩ := List.mem_map.1 hc
      exact hfound w hw
  refine WindowsPlaced.reading hin rfl rfl ?_ (by simp [push, Select.reading]) ?_
    (by simp [push, Select.reading])
  · refine Expr.windowFree_rowClosed.conjunction ?_
    intro e he
    obtain ⟨x, hx, rfl⟩ := List.mem_map.1 he
    exact (hconditions x hx).replaceAlias subquery windows
  · intro c hc
    have hcolumn := isColumn_lookup_ofSubquery ((Scope.project_eq_ok.1 hlist).2 c hc)
    exact Expr.windowsPlaced_of_isColumn hcolumn

lemma windowsPlaced_distinct {s t : QueryState} {dialect : Dialect} {columns : List ColumnExpr}
    {computed : List (String × ColumnExpr)} {keepAll : Bool}
    (hf : s.functions = .builtIn dialect) (hs : s.last.Everywhere WindowsPlaced)
    (h : s.distinct columns computed keepAll = .ok t) : t.last.Everywhere WindowsPlaced := by
  obtain ⟨_, base, names, inner, aliases, list, _, hbase, _, hwrap, hlist, rfl⟩ := distinct_cases h
  have hinner := windowsPlaced_wrapIf hwrap (windowsPlaced_mutate hf hs hbase)
  refine WindowsPlaced.edit hinner rfl rfl rfl ?_ hinner.root.group hinner.root.order
  intro c hc
  exact hinner.root.lookup ((Scope.project_eq_ok.1 hlist).2 c hc)

lemma windowsPlaced_arrange {s t : QueryState} {dialect : Dialect} {terms : List ColumnExpr}
    (hf : s.functions = .builtIn dialect) (hs : s.last.Everywhere WindowsPlaced)
    (h : s.arrange terms = .ok t) : t.last.Everywhere WindowsPlaced := by
  rcases arrange_cases h with rfl | ⟨base, aliases, resolved, hwrap, hresolved, rfl⟩
  · exact hs
  have hbase := windowsPlaced_wrapIf hwrap hs
  refine WindowsPlaced.edit hbase rfl rfl rfl (fun c hc => hbase.root.column hc)
    hbase.root.group ?_
  intro t ht
  rcases List.mem_append.1 ht with ht | ht
  · exact hbase.root.order t ht
  · obtain ⟨term, _, hterm⟩ := resolveOrder_cases hresolved t ht
    have rules := scalarRules ⟨s.functions, .ofSelectList base, {}⟩ hf
    obtain ⟨_, hplaced⟩ := rules.compileExpr hterm fun n _ y hy => hbase.root.lookup hy
    exact hplaced

lemma windowsPlaced_summarize {s t : QueryState} {dialect : Dialect}
    {columns : List (String × ColumnExpr)} (hf : s.functions = .builtIn dialect)
    (hs : s.last.Everywhere WindowsPlaced) (h : s.summarize columns = .ok t) :
    t.last.Everywhere WindowsPlaced := by
  obtain ⟨shaped, base, aliases, groups, aggregates, _, _, _, hwrap, hgroups, haggregates, rfl⟩ :=
    summarize_cases h
  have hbase := windowsPlaced_wrapIf hwrap hs
  have hcolumn : ∀ n ∈ shaped.flatMap (fun c => c.2.reads) ++ s.groups.toList, ∀ y,
      (Scope.ofSelectList base).lookup n = .ok y → y.isColumn = true := by
    intro n hn y hy
    refine isColumn_of_wrapIf hwrap ?_ hn hy
    intro hneeded
    simp only [Bool.or_eq_false_iff] at hneeded
    exact hneeded.2
  have hgroup : ∀ c ∈ groups, c.2.isColumn = true := by
    intro c hc
    obtain ⟨hnames, hlookup⟩ := Scope.project_eq_ok.1 hgroups
    have hname : c.1 ∈ s.groups.toList := hnames ▸ List.mem_map_of_mem hc
    exact hcolumn c.1 (List.mem_append_right _ hname) c.2 (hlookup c hc)
  refine WindowsPlaced.edit hbase rfl rfl rfl ?_ ?_ (by simp [pushWith, push])
  · intro c hc
    rcases List.mem_append.1 hc with hc | hc
    · exact Expr.windowsPlaced_of_isColumn (hgroup c hc)
    · obtain ⟨d, hd, _, hcompile⟩ := exists_of_forall₂ haggregates hc
      refine (windowFree_compileIn hf (by simp) ?_ hcompile).windowsPlaced
      intro n hn
      exact hcolumn n (List.mem_append_left _ (List.mem_flatMap.2 ⟨d, hd, hn⟩))
  · intro e he
    obtain ⟨c, hc, rfl⟩ := List.mem_map.1 he
    exact hgroup c hc

lemma windowsPlaced_count {s t : QueryState} {dialect : Dialect} {columns : List ColumnExpr}
    {name : Option String} {sort : Bool} (hf : s.functions = .builtIn dialect)
    (hs : s.last.Everywhere WindowsPlaced) (h : s.count columns name sort = .ok t) :
    t.last.Everywhere WindowsPlaced := by
  obtain ⟨subquery, grouped, scope, counted, list, inner, groups, groupColumns, _, _, rfl,
    hcounted, hinner, _, hgroups, rfl⟩ := count_cases h
  have hin : inner.Everywhere WindowsPlaced := by
    rw [hinner]
    refine WindowsPlaced.reading_columns hs ?_
    intro c hc
    rcases countedColumns_cases hcounted c hc with hc | ⟨e, _, hx⟩
    · rw [(Scope.mem_selectList_ofSubquery hc).1]
      rfl
    · refine (windowFree_compileIn hf (by simp) ?_ hx).windowsPlaced
      exact fun n _ y hy => isColumn_lookup_ofSubquery hy
  have hgroup : ∀ c ∈ groupColumns, c.2.isColumn = true := fun c hc =>
    isColumn_lookup_ofSubquery ((Scope.project_eq_ok.1 hgroups).2 c hc)
  refine WindowsPlaced.reading hin rfl rfl rfl ?_ ?_ ?_
  · intro e he
    obtain ⟨c, hc, rfl⟩ := List.mem_map.1 he
    exact hgroup c hc
  · intro c hc
    rcases List.mem_append.1 hc with hc | hc
    · exact Expr.windowsPlaced_of_isColumn (hgroup c hc)
    · obtain rfl := List.mem_singleton.1 hc
      rfl
  · intro t ht
    cases sort with
    | false => simp [pushWith, push] at ht
    | true =>
      simp only [pushWith, push, if_true, List.mem_singleton] at ht
      rw [ht]
      rfl

lemma windowsPlaced_join {s t u : QueryState} {keys : JoinKeys} {kind : JoinKind}
    (hs : s.last.Everywhere WindowsPlaced) (ht : t.last.Everywhere WindowsPlaced)
    (h : s.join t keys kind = .ok u) : u.last.Everywhere WindowsPlaced := by
  obtain ⟨lhs, rhs, condition, list, groups, _, _, rfl, hparts⟩ := join_parts h
  obtain ⟨hcondition, hcolumns⟩ := hparts Expr.windowFree_rowClosed trivial
    (fun n y hy => Expr.windowFree_of_isColumn (isColumn_lookup_ofSubquery hy))
    (fun n y hy => Expr.windowFree_of_isColumn (isColumn_lookup_ofSubquery hy))
  refine .of_items (.of_clauses ?_ ?_ ?_ ?_ ?_) ?_
  · simp only [pushWith, push, condition_joinStage]
    rfl
  · intro j hj
    rw [condition_of_mem_joinStage hj]
    exact hcondition
  · simp [pushWith, push]
  · intro c hc
    simp only [pushWith, push, columns_joinStage] at hc
    exact (hcolumns c hc).windowsPlaced
  · simp [pushWith, push]
  · intro inner a hmem
    rcases mem_items_joinStage.1 hmem with he | he
    · cases he
      exact hs
    · cases he
      exact ht

end QueryState

open QueryState

lemma windowsPlaced_step {s t : QueryState} {dialect : Dialect}
    (hf : s.functions = .builtIn dialect) (hs : s.last.Everywhere WindowsPlaced)
    (h : Step s t) : t.last.Everywhere WindowsPlaced := by
  cases h with
  | select h => exact windowsPlaced_select hs h
  | rename h => exact windowsPlaced_rename hs h
  | filter h => exact windowsPlaced_filter hf hs h
  | mutate h => exact windowsPlaced_mutate hf hs h
  | arrange h => exact windowsPlaced_arrange hf hs h
  | summarize h => exact windowsPlaced_summarize hf hs h
  | count h => exact windowsPlaced_count hf hs h
  | distinct h => exact windowsPlaced_distinct hf hs h
  | head n =>
    exact WindowsPlaced.edit hs rfl rfl rfl (fun _ hc => hs.root.column hc) hs.root.group
      hs.root.order
  | groupBy h =>
    obtain ⟨groups, rfl⟩ := groupBy_cases h
    exact hs
  | ungroup => exact hs

lemma windowsPlaced_ofTable (f : FunctionTable) (collection : String) (info : TableInfo) :
    (ofTable f collection info).last.Everywhere WindowsPlaced := by
  refine .of_items (.of_clauses rfl (by simp [ofTable]) (by simp [ofTable]) ?_
    (by simp [ofTable])) ?_
  · intro c hc
    obtain ⟨d, _, rfl⟩ := List.mem_map.1 hc
    rfl
  · intro inner a hmem
    simp [ofTable, items] at hmem

/-- In every query of a statement that is built with the table of a dialect, window functions
stand where SQL allows them. -/
theorem reachable_windows_placed {tables : Set TableInfo} {s : QueryState}
    (h : Reachable tables {f | ∃ dialect, f = .builtIn dialect} s) {q : Select}
    (hq : Nested q s.last) : q.WindowsPlaced := by
  suffices hall : s.last.Everywhere WindowsPlaced from hall q hq
  clear hq
  induction h with
  | table collection _ _ => exact windowsPlaced_ofTable _ collection _
  | step hs hstep ih =>
    obtain ⟨dialect, hf⟩ := hs.functions_mem
    exact windowsPlaced_step hf ih hstep
  | join _ _ hjoin ihs iht => exact windowsPlaced_join ihs iht hjoin

/-- A mean that is grouped by, and a running total over it that is summed up. -/
def runningTotals : Request where
  collection := "people"
  pipeline := [.mutate (.ofList [("m", .call .mean [.column "x"] [])]),
    .groupBy [.column "m"] false,
    .mutate (.ofList [("t", .call .runningSum [.column "x"] [])]),
    .summarize (.ofList [("total", .call .sum [.column "t"] [])])]

theorem runningTotals_windows_placed :
    ∃ s, runningTotals.run peopleCatalog (.builtIn .sqlite) = .ok s ∧
      ∀ q, Nested q s.last → q.WindowsPlaced := by
  have hok : (runningTotals.run peopleCatalog (.builtIn .sqlite)).isOk = true := by decide +kernel
  obtain ⟨s, hs⟩ := exists_eq_ok hok
  have hreach : Reachable peopleCatalog.infos {f | ∃ dialect, f = .builtIn dialect} s := by
    refine .mono ?_ (runningTotals.run_reachable hs)
    intro f hf
    exact ⟨.sqlite, hf⟩
  exact ⟨s, hs, fun q hq => reachable_windows_placed hreach hq⟩

end PipelineSql
