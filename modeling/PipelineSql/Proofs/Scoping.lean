import Mathlib.Logic.Relation
import PipelineSql.Proofs.Identifiers
import PipelineSql.Proofs.Reachability
import PipelineSql.Proofs.References

/-!
# Every statement is well scoped

A column reference goes through an item of its own query and names a column that the item offers.
Aliases are numbered upwards, so the aliases of a query are newer than all aliases below it.
-/

namespace PipelineSql

open Sql (ColumnRef Expr Ordered Select Source TableAlias AliasCounter)

namespace Sql

/-- The columns that can be read from an item: those of a table as it is declared, or the output
columns of a subquery. -/
def Source.Offers (tables : Set TableInfo) (column : String) : Source Select → Prop
  | .table (.stored schema name) _ => ∃ info ∈ tables, info.schemaName = schema ∧
      info.tableName = name ∧ ∃ c ∈ info.columns.values, c.name = column
  | .table (.aliased _) _ => False
  | .subquery inner _ => column ∈ inner.columnNames

namespace Select

/-- A reference goes through an item of the query and names a column of it. -/
def Resolves (tables : Set TableInfo) (q : Select) (r : ColumnRef) : Prop :=
  ∃ i ∈ q.items, r.table = .aliased i.tableAlias ∧ i.Offers tables r.name

/-- A reference to an output column of a query, read under an alias. -/
def OutputRef (q : Select) (a : TableAlias) (r : ColumnRef) : Prop :=
  ∃ name ∈ q.columnNames, r = .labelled (.aliased a) name

/-- The references of a query are resolved by its own items, the aliases of its items differ, and
their numbers are greater than those of all aliases below. -/
structure WellScoped (tables : Set TableInfo) (q : Select) : Prop where
  resolved : ∀ e ∈ q.exprs, ∀ r ∈ e.refs, q.Resolves tables r
  distinct : (q.items.map Source.tableAlias).Nodup
  above : ∀ i ∈ q.items, ∀ inner a, .subquery inner a ∈ q.items → ∀ b ∈ inner.aliases,
    b.index < i.tableAlias.index

end Select

end Sql

open Sql.Select

/-- The invariant of a statement whose aliases are numbered below `n`. In a linear statement, one
without joins, all aliases differ. -/
structure ScopedBelow (tables : Set TableInfo) (linear : Prop) (q : Select) (n : Nat) : Prop where
  wellScoped : q.Everywhere (WellScoped tables)
  bounded : ∀ b ∈ q.aliases, b.index < n
  nodup : linear → q.aliases.Nodup

namespace ScopedBelow

variable {tables : Set TableInfo} {linear : Prop} {q : Select} {n : Nat}

lemma within_column (h : ScopedBelow tables linear q n) {c : String × Expr}
    (hc : c ∈ q.columns) : c.2.Within (q.Resolves tables) :=
  h.wellScoped.root.resolved c.2 (mem_exprs.2 (Or.inl ⟨c, hc, rfl⟩))

/-- A name in the select list stands for something that the query resolves. -/
lemma within_lookup (h : ScopedBelow tables linear q n) {name : String} {x : Expr}
    (hx : (Scope.ofSelectList q).lookup name = .ok x) : x.Within (q.Resolves tables) :=
  h.within_column (Scope.mem_of_lookup_ofSelectList hx)

lemma mono {m : Nat} (h : ScopedBelow tables linear q n) (hnm : n ≤ m) :
    ScopedBelow tables linear q m :=
  ⟨h.wellScoped, fun b hb => (h.bounded b hb).trans_le hnm, h.nodup⟩

/-- An edit that leaves the items alone, and whose expressions they resolve. -/
lemma edit {r : Select} (h : ScopedBelow tables linear q n) (hitems : r.items = q.items)
    (hexprs : ∀ e ∈ r.exprs, e.Within (q.Resolves tables)) : ScopedBelow tables linear r n where
  wellScoped := by
    have hq := h.wellScoped.root
    refine h.wellScoped.edit hitems ⟨?_, hitems ▸ hq.distinct, hitems ▸ hq.above⟩
    intro e he ref href
    obtain ⟨i, hi, hres⟩ := hexprs e he ref href
    exact ⟨i, hitems ▸ hi, hres⟩
  bounded := by
    rw [aliases_eq, hitems, ← aliases_eq]
    exact h.bounded
  nodup := by
    rw [aliases_eq, hitems, ← aliases_eq]
    exact h.nodup

/-- An edit of the columns, the grouping and the ordering. -/
lemma edit_lists {r : Select} (h : ScopedBelow tables linear q n) (hsource : r.source = q.source)
    (hjoins : r.joins = q.joins) (hcondition : r.condition = q.condition)
    (hcolumns : ∀ c ∈ r.columns, c.2.Within (q.Resolves tables))
    (hgroup : ∀ e ∈ r.groupBy, e.Within (q.Resolves tables))
    (horder : ∀ t ∈ r.orderBy, t.target.Within (q.Resolves tables)) :
    ScopedBelow tables linear r n := by
  refine h.edit (items_congr hsource hjoins) ?_
  have hq := h.wellScoped.root.resolved
  intro e he
  rcases mem_exprs.1 he with ⟨c, hc, rfl⟩ | rfl | he | ⟨t, ht, rfl⟩ | ⟨j, hj, rfl⟩
  · exact hcolumns c hc
  · rw [hcondition]
    exact hq _ (mem_exprs.2 (Or.inr (Or.inl rfl)))
  · exact hgroup e he
  · exact horder t ht
  · rw [hjoins] at hj
    exact hq _ (mem_exprs.2 (Or.inr (Or.inr (Or.inr (Or.inr ⟨j, hj, rfl⟩)))))

lemma within_groupBy (h : ScopedBelow tables linear q n) :
    ∀ e ∈ q.groupBy, e.Within (q.Resolves tables) := fun e he =>
  h.wellScoped.root.resolved e (mem_exprs.2 (Or.inr (Or.inr (Or.inl he))))

lemma within_orderBy (h : ScopedBelow tables linear q n) :
    ∀ t ∈ q.orderBy, t.target.Within (q.Resolves tables) := fun t ht =>
  h.wellScoped.root.resolved _ (mem_exprs.2 (Or.inr (Or.inr (Or.inr (Or.inl ⟨t, ht, rfl⟩)))))

/-- A query whose items are subqueries, under newer aliases that differ. -/
lemma of_subqueries {r : Select} {m : Nat}
    (hitems : ∀ i ∈ r.items, ∃ q a, i = .subquery q a ∧ ScopedBelow tables linear q n ∧
      n ≤ a.index ∧ a.index < m)
    (hdistinct : (r.items.map Source.tableAlias).Nodup)
    (hexprs : ∀ e ∈ r.exprs, e.Within (r.Resolves tables))
    (hnodup : linear → r.aliases.Nodup) : ScopedBelow tables linear r m where
  wellScoped := by
    refine .of_items ⟨hexprs, hdistinct, ?_⟩ ?_
    · intro i hi inner a hmem b hb
      obtain ⟨q₁, a₁, rfl, _, hle, _⟩ := hitems i hi
      obtain ⟨q₂, a₂, he, hq₂, _, _⟩ := hitems _ hmem
      cases he
      exact (hq₂.bounded b hb).trans_le hle
    · intro inner a hmem
      obtain ⟨q₁, a₁, he, hq₁, _, _⟩ := hitems _ hmem
      cases he
      exact hq₁.wellScoped
  bounded := by
    intro b hb
    obtain ⟨i, hi, hb⟩ := mem_aliases.1 hb
    obtain ⟨q₁, a₁, rfl, hq₁, hle, hlt⟩ := hitems i hi
    rcases hb with rfl | ⟨inner, a, he, hb⟩
    · exact hlt
    · cases he
      exact ((hq₁.bounded b hb).trans_le hle).trans hlt
  nodup := hnodup

/-- A query that reads all it has from one subquery, under a newer alias. -/
lemma reading {r : Select} {a : TableAlias} {m : Nat} (h : ScopedBelow tables linear q n)
    (hsource : r.source = some (.subquery q a)) (hjoins : r.joins = []) (hle : n ≤ a.index)
    (hlt : a.index < m) (hcolumns : ∀ c ∈ r.columns, c.2.Within (q.OutputRef a))
    (hcondition : r.condition.Within (q.OutputRef a))
    (hgroup : ∀ e ∈ r.groupBy, e.Within (q.OutputRef a))
    (horder : ∀ t ∈ r.orderBy, t.target.Within (q.OutputRef a)) :
    ScopedBelow tables linear r m := by
  have hitems : r.items = [.subquery q a] := by simp [items, hsource, hjoins]
  have hone : ∀ i ∈ r.items, ∃ q a, i = .subquery q a ∧ ScopedBelow tables linear q n ∧
      n ≤ a.index ∧ a.index < m := by
    intro i hi
    rw [hitems, List.mem_singleton] at hi
    exact ⟨q, a, hi, h, hle, hlt⟩
  have hresolves : ∀ ref, q.OutputRef a ref → r.Resolves tables ref := by
    rintro ref ⟨name, hname, rfl⟩
    exact ⟨.subquery q a, by simp [hitems], rfl, hname⟩
  refine of_subqueries hone (by simp [hitems]) ?_ ?_
  · intro e he
    rcases mem_exprs.1 he with ⟨c, hc, rfl⟩ | rfl | he | ⟨t, ht, rfl⟩ | ⟨j, hj, _⟩
    · exact (hcolumns c hc).mono hresolves
    · exact hcondition.mono hresolves
    · exact (hgroup e he).mono hresolves
    · exact (horder t ht).mono hresolves
    · simp [hjoins] at hj
  · intro hlinear
    rw [aliases_eq, hitems]
    have hfresh : a ∉ q.aliases := fun ha => absurd (h.bounded a ha) (Nat.not_lt.2 hle)
    simpa [itemAliases] using ⟨hfresh, h.nodup hlinear⟩

lemma reading_columns {list : List (String × Expr)} {a : TableAlias} {m : Nat}
    (h : ScopedBelow tables linear q n) (hle : n ≤ a.index) (hlt : a.index < m)
    (hcolumns : ∀ c ∈ list, c.2.Within (q.OutputRef a)) :
    ScopedBelow tables linear (Select.reading list q a) m :=
  h.reading rfl rfl hle hlt hcolumns Expr.within_always (by simp [Select.reading])
    (by simp [Select.reading])

end ScopedBelow

namespace QueryState

variable {tables : Set TableInfo} {linear : Prop}

lemma scopedBelow_wrapIf {needed : Bool} {q base : Select} {aliases aliases' : AliasCounter}
    (h : wrapIf needed q aliases = (base, aliases'))
    (hq : ScopedBelow tables linear q aliases.next) :
    ScopedBelow tables linear base aliases'.next := by
  rcases wrapIf_cases h with ⟨_, rfl, rfl⟩ | ⟨rfl, rfl⟩
  · exact hq
  · refine hq.reading_columns le_rfl (Nat.lt_succ_self _) ?_
    intro c hc
    obtain ⟨d, hd, rfl⟩ := List.mem_map.1 hc
    exact Expr.within_labelled ⟨d.1, List.mem_map_of_mem hd, rfl⟩

section Compiled

variable {s : QueryState} {scope : Scope} {ok : ColumnRef → Prop}

lemma within_compileIn {mode : Mode} {windows : WindowContext} {e : ColumnExpr} {x : Expr}
    (hf : s.functions.PassesReferences)
    (hscope : ∀ n ∈ e.reads, ∀ y, scope.lookup n = .ok y → y.Within ok)
    (hpartition : ∀ y ∈ windows.partitionBy, y.Within ok)
    (horder : ∀ t ∈ windows.orderBy, t.target.Within ok) (hplace : windows.placement = .inPlace)
    (h : s.compileIn scope mode windows e = .ok x) : x.Within ok := by
  have rules := scopingRules ⟨s.functions, scope, windows⟩ mode hf hpartition horder
  obtain ⟨found, hx⟩ := rules.compileExpr h hscope
  refine hx.mono ?_
  rintro r (hr | ⟨table, htable, _⟩)
  · exact hr
  · rw [hplace] at htable
    cases htable

lemma within_resolveOrder (hf : s.functions.PassesReferences) {order : List (Ordered ColumnExpr)}
    (hscope : ∀ term ∈ order, ∀ n ∈ term.target.reads, ∀ y, scope.lookup n = .ok y → y.Within ok)
    {resolved : List (Ordered Expr)} (h : s.resolveOrder scope order = .ok resolved) :
    ∀ r ∈ resolved, r.target.Within ok := by
  intro r hr
  obtain ⟨term, hterm, hcompile⟩ := resolveOrder_cases h r hr
  exact within_compileIn hf (hscope term hterm) (by simp) (by simp) rfl hcompile

lemma within_windowContext (hf : s.functions.PassesReferences)
    (hscope : ∀ n y, scope.lookup n = .ok y → y.Within ok) {placement : Placement}
    {context : WindowContext} (h : s.windowContext scope placement = .ok context) :
    (∀ y ∈ context.partitionBy, y.Within ok) ∧ ∀ t ∈ context.orderBy, t.target.Within ok := by
  obtain ⟨_, hpartition, horder⟩ := windowContext_cases h
  constructor
  · intro y hy
    obtain ⟨g, _, hg⟩ := hpartition y hy
    exact hscope g y hg
  · intro t ht
    obtain ⟨term, _, hterm⟩ := horder t ht
    exact within_compileIn hf (fun n _ => hscope n) (by simp) (by simp) rfl hterm

end Compiled

lemma scopedBelow_select {s t : QueryState} {columns : List ColumnExpr}
    (hs : ScopedBelow tables linear s.last s.aliases.next) (h : s.select columns = .ok t) :
    ScopedBelow tables linear t.last t.aliases.next := by
  obtain ⟨_, _, _, base, aliases, list, _, _, _, _, hwrap, hlist, rfl⟩ := select_cases h
  have hbase := scopedBelow_wrapIf hwrap hs
  refine hbase.edit_lists rfl rfl rfl ?_ hbase.within_groupBy hbase.within_orderBy
  intro c hc
  obtain ⟨_, _, _, hlookup⟩ := exists_of_forall₂ hlist hc
  exact hbase.within_lookup hlookup

lemma scopedBelow_rename {s t : QueryState} {columns : List (String × ColumnExpr)}
    (hs : ScopedBelow tables linear s.last s.aliases.next) (h : s.rename columns = .ok t) :
    ScopedBelow tables linear t.last t.aliases.next := by
  obtain ⟨renames, list, _, rfl, _, rfl⟩ := rename_cases h
  refine hs.edit_lists rfl rfl rfl ?_ hs.within_groupBy hs.within_orderBy
  intro c hc
  obtain ⟨d, hd, rfl⟩ := List.mem_map.1 hc
  have hwithin : d.2.Within (s.last.Resolves tables) := hs.within_column hd
  exact hwithin

lemma scopedBelow_addColumn {s : QueryState} {name : String} {e : ColumnExpr} {q q' : Select}
    {aliases aliases' : AliasCounter} (hf : s.functions.PassesReferences)
    (hq : ScopedBelow tables linear q aliases.next)
    (h : s.addColumn name e q aliases = .ok (q', aliases')) :
    ScopedBelow tables linear q' aliases'.next := by
  obtain ⟨base, windows, x, hwrap, hwindows, hx, rfl⟩ := addColumn_cases h
  have hbase := scopedBelow_wrapIf hwrap hq
  have hscope : ∀ n y, (Scope.ofSelectList base).lookup n = .ok y →
      y.Within (base.Resolves tables) := fun n y hy => hbase.within_lookup hy
  obtain ⟨hpartition, horder⟩ := within_windowContext hf hscope hwindows
  refine hbase.edit_lists rfl rfl rfl ?_ hbase.within_groupBy hbase.within_orderBy
  intro c hc
  rcases mem_putEntry hc with rfl | hc
  · exact within_compileIn hf (fun n _ => hscope n) hpartition horder
      (windowContext_cases hwindows).1 hx
  · exact hbase.within_column hc

lemma scopedBelow_mutate {s t : QueryState} {columns : List (String × ColumnExpr)}
    (hf : s.functions.PassesReferences) (hs : ScopedBelow tables linear s.last s.aliases.next)
    (h : s.mutate columns = .ok t) : ScopedBelow tables linear t.last t.aliases.next := by
  rcases mutate_cases h with ⟨_, rfl⟩ | ⟨q, aliases, hadd, rfl⟩
  · exact hs
  · refine addColumns_induction (motive := fun q aliases =>
      ScopedBelow tables linear q aliases.next) ?_ hs hadd
    intro name e q aliases q' aliases' hq hstep
    exact scopedBelow_addColumn hf hq hstep

/-- The columns of a subquery, as they are referred to through its alias. -/
lemma within_lookup_ofSubquery {q : Select} {a : TableAlias} {name : String} {x : Expr}
    (h : (Scope.ofSubquery q a).lookup name = .ok x) : x.Within (q.OutputRef a) := by
  obtain ⟨rfl, hname⟩ := Scope.lookup_ofSubquery h
  exact Expr.within_labelled ⟨name, hname, rfl⟩

lemma within_selectList_ofSubquery {q : Select} {a : TableAlias} {c : String × Expr}
    (h : c ∈ (Scope.ofSubquery q a).selectList) : c.2.Within (q.OutputRef a) := by
  obtain ⟨hc, hname⟩ := Scope.mem_selectList_ofSubquery h
  rw [hc]
  exact Expr.within_labelled ⟨c.1, hname, rfl⟩

/-- A stage that computes windows under labels offers the columns of the query and the labels. -/
lemma mem_columnNames_of_windows {q : Select} {a : TableAlias} {found : List LabelledWindow}
    {n : String} (hn : n ∈ q.columnNames ∨ ∃ w ∈ found, w.label = n) :
    n ∈ (Select.reading ((Scope.ofSubquery q a).selectList ++
      found.map fun w => (w.label, w.expression)) q a).columnNames := by
  have hkeys : (Select.reading ((Scope.ofSubquery q a).selectList ++
      found.map fun w => (w.label, w.expression)) q a).columnNames =
        (Scope.ofSubquery q a).columns.keys ++ found.map LabelledWindow.label := by
    simp [Select.reading, Select.columnNames, Scope.selectList, OrderedMap.keys, Function.comp_def]
  rw [hkeys, List.mem_append, List.mem_map]
  refine hn.imp ?_ id
  intro hn
  exact OrderedMap.mem_keys_ofList.2 (by simpa [Select.columnNames] using hn)

lemma scopedBelow_filter {s t : QueryState} {predicates : List ColumnExpr}
    (hf : s.functions.PassesReferences) (hs : ScopedBelow tables linear s.last s.aliases.next)
    (h : s.filter predicates = .ok t) : ScopedBelow tables linear t.last t.aliases.next := by
  rcases filter_cases h with ⟨_, rfl⟩ | ⟨subquery, windows, scope, context, conditions, found, inner,
    list, hsub, hwin, rfl, hcontext, hall, hinner, hlist, rfl⟩
  · exact hs
  have hlookup : ∀ n y, (Scope.ofSubquery s.last subquery).lookup n = .ok y →
      y.Within (s.last.OutputRef subquery) := fun n y hy => within_lookup_ofSubquery hy
  obtain ⟨hpartition, horder⟩ := within_windowContext hf hlookup hcontext
  have rules := scopingRules ⟨s.functions, .ofSubquery s.last subquery, context⟩ .window hf
    hpartition horder
  obtain ⟨hconditions, hfound⟩ := rules.compileAll hall fun _ _ n _ y hy => hlookup n y hy
  -- The first stage reads the query and computes the windows under their labels, so that the
  -- second one finds under its alias whatever the conditions refer to.
  have hin : ScopedBelow tables linear inner (s.aliases.next + 1) := by
    rw [hinner]
    refine hs.reading_columns (by rw [hsub]) (by simp [hsub]) ?_
    intro c hc
    rcases List.mem_append.1 hc with hc | hc
    · exact within_selectList_ofSubquery hc
    · obtain ⟨w, hw, rfl⟩ := List.mem_map.1 hc
      exact hfound w hw
  have hnames : ∀ n, n ∈ s.last.columnNames ∨ (∃ w ∈ found, w.label = n) →
      n ∈ inner.columnNames := fun n hn => hinner ▸ mem_columnNames_of_windows hn
  refine hin.reading rfl rfl (by simp [hwin]) (by simp [hwin, push]) ?_ ?_
    (by simp [push, Select.reading]) (by simp [push, Select.reading])
  · intro c hc
    exact within_lookup_ofSubquery ((Scope.project_eq_ok.1 hlist).2 c hc)
  · refine (within_rowClosed _).conjunction ?_
    intro e he r hr
    obtain ⟨e, hmem, rfl⟩ := List.mem_map.1 he
    rw [Expr.refs_replaceAlias] at hr
    obtain ⟨r, href, rfl⟩ := List.mem_map.1 hr
    rcases hconditions e hmem r href with ⟨n, hn, rfl⟩ | ⟨table, htable, w, hw, rfl⟩
    · exact ⟨n, hnames n (Or.inl hn), by simp [ColumnRef.replaceAlias]⟩
    · rw [(windowContext_cases hcontext).1, Placement.hoisted.injEq] at htable
      subst htable
      exact ⟨w.label, hnames _ (Or.inr ⟨w, hw, rfl⟩), by simp [ColumnRef.replaceAlias]⟩

lemma scopedBelow_distinct {s t : QueryState} {columns : List ColumnExpr}
    {computed : List (String × ColumnExpr)} {keepAll : Bool}
    (hf : s.functions.PassesReferences) (hs : ScopedBelow tables linear s.last s.aliases.next)
    (h : s.distinct columns computed keepAll = .ok t) :
    ScopedBelow tables linear t.last t.aliases.next := by
  obtain ⟨_, base, names, inner, aliases, list, _, hbase, _, hwrap, hlist, rfl⟩ := distinct_cases h
  have hinner := scopedBelow_wrapIf hwrap (scopedBelow_mutate hf hs hbase)
  refine hinner.edit_lists rfl rfl rfl ?_ hinner.within_groupBy hinner.within_orderBy
  intro c hc
  exact hinner.within_lookup ((Scope.project_eq_ok.1 hlist).2 c hc)

lemma scopedBelow_arrange {s t : QueryState} {terms : List ColumnExpr}
    (hf : s.functions.PassesReferences) (hs : ScopedBelow tables linear s.last s.aliases.next)
    (h : s.arrange terms = .ok t) : ScopedBelow tables linear t.last t.aliases.next := by
  rcases arrange_cases h with rfl | ⟨base, aliases, resolved, hwrap, hresolved, rfl⟩
  · exact hs
  · have hbase := scopedBelow_wrapIf hwrap hs
    refine hbase.edit_lists rfl rfl rfl (fun c hc => hbase.within_column hc)
      hbase.within_groupBy ?_
    intro t ht
    rcases List.mem_append.1 ht with ht | ht
    · exact hbase.within_orderBy t ht
    · exact within_resolveOrder hf (fun _ _ n _ y hy => hbase.within_lookup hy) hresolved t ht

lemma scopedBelow_summarize {s t : QueryState} {columns : List (String × ColumnExpr)}
    (hf : s.functions.PassesReferences) (hs : ScopedBelow tables linear s.last s.aliases.next)
    (h : s.summarize columns = .ok t) : ScopedBelow tables linear t.last t.aliases.next := by
  obtain ⟨shaped, base, aliases, groups, aggregates, _, _, _, hwrap, hgroups, haggregates, rfl⟩ :=
    summarize_cases h
  have hbase := scopedBelow_wrapIf hwrap hs
  have hscope : ∀ n y, (Scope.ofSelectList base).lookup n = .ok y →
      y.Within (base.Resolves tables) := fun n y hy => hbase.within_lookup hy
  have hgroup : ∀ c ∈ groups, c.2.Within (base.Resolves tables) := fun c hc =>
    hscope c.1 c.2 ((Scope.project_eq_ok.1 hgroups).2 c hc)
  refine hbase.edit_lists rfl rfl rfl ?_ ?_ (by simp [pushWith, push])
  · intro c hc
    rcases List.mem_append.1 hc with hc | hc
    · exact hgroup c hc
    · obtain ⟨d, _, _, hcompile⟩ := exists_of_forall₂ haggregates hc
      exact within_compileIn hf (fun n _ => hscope n) (by simp) (by simp) rfl hcompile
  · intro e he
    obtain ⟨c, hc, rfl⟩ := List.mem_map.1 he
    exact hgroup c hc

lemma scopedBelow_count {s t : QueryState} {columns : List ColumnExpr} {name : Option String}
    {sort : Bool} (hf : s.functions.PassesReferences)
    (hs : ScopedBelow tables linear s.last s.aliases.next)
    (h : s.count columns name sort = .ok t) : ScopedBelow tables linear t.last t.aliases.next := by
  obtain ⟨subquery, grouped, scope, counted, list, inner, groups, groupColumns, hsub, hgrouped,
    rfl, hcounted, hinner, _, hgroups, rfl⟩ := count_cases h
  have hlookup : ∀ n y, (Scope.ofSubquery s.last subquery).lookup n = .ok y →
      y.Within (s.last.OutputRef subquery) := fun n y hy => within_lookup_ofSubquery hy
  have hin : ScopedBelow tables linear inner (s.aliases.next + 1) := by
    rw [hinner]
    refine hs.reading_columns (by rw [hsub]) (by simp [hsub]) ?_
    intro c hc
    rcases countedColumns_cases hcounted c hc with hc | ⟨e, _, hx⟩
    · exact within_selectList_ofSubquery hc
    · exact within_compileIn hf (fun n _ => hlookup n) (by simp) (by simp) rfl hx
  have hgroup : ∀ c ∈ groupColumns, c.2.Within (inner.OutputRef grouped) := fun c hc =>
    within_lookup_ofSubquery ((Scope.project_eq_ok.1 hgroups).2 c hc)
  have hcountAll : Expr.countAll.Within (inner.OutputRef grouped) := by
    simp [Expr.Within, Expr.refs]
  refine hin.reading rfl rfl (by simp [hgrouped]) (by simp [hgrouped, pushWith, push]) ?_
    Expr.within_always ?_ ?_
  · intro c hc
    rcases List.mem_append.1 hc with hc | hc
    · exact hgroup c hc
    · obtain rfl := List.mem_singleton.1 hc
      exact hcountAll
  · intro e he
    obtain ⟨c, hc, rfl⟩ := List.mem_map.1 he
    exact hgroup c hc
  · intro t ht
    cases sort with
    | false => simp [pushWith, push] at ht
    | true =>
      simp only [pushWith, push, if_true, List.mem_singleton] at ht
      rw [ht]
      exact hcountAll

lemma scopedBelow_head {s : QueryState} (n : UInt32)
    (hs : ScopedBelow tables linear s.last s.aliases.next) :
    ScopedBelow tables linear (s.head n).last (s.head n).aliases.next :=
  hs.edit_lists rfl rfl rfl (fun _ hc => hs.within_column hc) hs.within_groupBy hs.within_orderBy

lemma scopedBelow_ofTable {info : TableInfo} (hinfo : info ∈ tables) (f : FunctionTable)
    (collection : String) :
    ScopedBelow tables linear (ofTable f collection info).last
      (ofTable f collection info).aliases.next := by
  have hitems : (ofTable f collection info).last.items =
      [.table (.stored info.schemaName info.tableName) ⟨info.tableName, 0⟩] := rfl
  have haliases : (ofTable f collection info).last.aliases = [⟨info.tableName, 0⟩] := by
    rw [aliases_eq, hitems]
    rfl
  refine ⟨?_, ?_, ?_⟩
  · refine .of_items ⟨?_, by simp [hitems], ?_⟩ ?_
    · intro e he
      rcases mem_exprs.1 he with ⟨c, hc, rfl⟩ | rfl | he | ⟨t, ht, _⟩ | ⟨j, hj, _⟩
      · obtain ⟨d, hd, rfl⟩ := List.mem_map.1 hc
        intro r hr
        obtain rfl := List.mem_singleton.1 hr
        exact ⟨_, List.mem_singleton.2 rfl, rfl, info, hinfo, rfl, rfl, d.2,
          List.mem_map_of_mem hd, rfl⟩
      · exact Expr.within_always
      · simp [ofTable] at he
      · simp [ofTable] at ht
      · simp [ofTable] at hj
    · intro i _ inner a hmem
      simp [hitems] at hmem
    · intro inner a hmem
      simp [hitems] at hmem
  · intro b hb
    rw [haliases, List.mem_singleton] at hb
    rw [hb]
    exact Nat.zero_lt_one
  · intro _
    simp [haliases]

/-- The two sides of a join are read under aliases that neither of them uses. -/
lemma scopedBelow_join {s t u : QueryState} {keys : JoinKeys} {kind : JoinKind}
    (hs : ScopedBelow tables False s.last s.aliases.next)
    (ht : ScopedBelow tables False t.last t.aliases.next) (h : s.join t keys kind = .ok u) :
    ScopedBelow tables False u.last u.aliases.next := by
  obtain ⟨lhs, rhs, condition, list, groups, hlhs, hrhs, rfl, hparts⟩ := join_parts h
  have hresolves : ∀ r, s.last.OutputRef lhs r ∨ t.last.OutputRef rhs r →
      (joinStage s t kind list lhs rhs condition).Resolves tables r := by
    rintro r (⟨n, hn, rfl⟩ | ⟨n, hn, rfl⟩)
    · exact ⟨_, mem_items_joinStage.2 (Or.inl rfl), rfl, hn⟩
    · exact ⟨_, mem_items_joinStage.2 (Or.inr rfl), rfl, hn⟩
  obtain ⟨hcondition, hcolumns⟩ := hparts (within_rowClosed _) trivial
    (fun n y hy => (within_lookup_ofSubquery hy).mono fun r hr => hresolves r (Or.inl hr))
    (fun n y hy => (within_lookup_ofSubquery hy).mono fun r hr => hresolves r (Or.inr hr))
  refine ScopedBelow.of_subqueries (n := max s.aliases.next t.aliases.next) ?_ ?_ ?_ False.elim
  · intro i hi
    rcases mem_items_joinStage.1 hi with rfl | rfl
    · refine ⟨_, _, rfl, hs.mono (Nat.le_max_left _ _), ?_⟩
      simp only [hlhs, pushWith, push]
      omega
    · refine ⟨_, _, rfl, ht.mono (Nat.le_max_right _ _), ?_⟩
      simp only [hrhs, pushWith, push]
      omega
  · have hne : lhs ≠ rhs := by simp [hlhs, hrhs]
    cases kind with
    | right => simp [pushWith, push, joinStage, items, Select.reading, Source.tableAlias, hne.symm]
    | inner | left | full =>
      simp [pushWith, push, joinStage, items, Select.reading, Source.tableAlias, hne]
  · intro e he
    rcases mem_exprs.1 he with ⟨c, hc, rfl⟩ | rfl | he | ⟨t, ht, _⟩ | ⟨j, hj, rfl⟩
    · simp only [pushWith, push, columns_joinStage] at hc
      exact hcolumns c hc
    · simpa [pushWith, push] using Expr.within_always
    · simp [pushWith, push] at he
    · simp [pushWith, push] at ht
    · rw [condition_of_mem_joinStage hj]
      exact hcondition

end QueryState

open QueryState

lemma scopedBelow_step {tables : Set TableInfo} {linear : Prop} {s t : QueryState}
    (hf : s.functions.PassesReferences) (hs : ScopedBelow tables linear s.last s.aliases.next)
    (h : Step s t) : ScopedBelow tables linear t.last t.aliases.next := by
  cases h with
  | select h => exact scopedBelow_select hs h
  | rename h => exact scopedBelow_rename hs h
  | filter h => exact scopedBelow_filter hf hs h
  | mutate h => exact scopedBelow_mutate hf hs h
  | arrange h => exact scopedBelow_arrange hf hs h
  | summarize h => exact scopedBelow_summarize hf hs h
  | count h => exact scopedBelow_count hf hs h
  | distinct h => exact scopedBelow_distinct hf hs h
  | head n => exact scopedBelow_head n hs
  | groupBy h =>
    obtain ⟨groups, rfl⟩ := groupBy_cases h
    exact hs
  | ungroup => exact hs

lemma scopedBelow_reachable {tables : Set TableInfo} {s : QueryState}
    (h : Reachable tables {f | f.PassesReferences} s) :
    ScopedBelow tables False s.last s.aliases.next := by
  induction h with
  | table collection _ hinfo => exact scopedBelow_ofTable hinfo _ collection
  | step hs hstep ih => exact scopedBelow_step hs.functions_mem ih hstep
  | join _ _ hjoin ihs iht => exact scopedBelow_join ihs iht hjoin

lemma functions_run {s t : QueryState} (h : Relation.ReflTransGen Step s t) :
    t.functions = s.functions := by
  induction h with
  | refl => rfl
  | tail _ hstep ih => exact hstep.functions_eq.trans ih

lemma scopedBelow_run {tables : Set TableInfo} {linear : Prop} {s t : QueryState}
    (hf : s.functions.PassesReferences) (hs : ScopedBelow tables linear s.last s.aliases.next)
    (h : Relation.ReflTransGen Step s t) : ScopedBelow tables linear t.last t.aliases.next := by
  induction h with
  | refl => exact hs
  | tail hrun hstep ih => exact scopedBelow_step ((functions_run hrun).symm ▸ hf) ih hstep

/-- Every query of a reachable statement is well scoped, under aliases that the counter has handed
out; different aliases are written differently; and without joins no alias is used twice. The
builders may be any that refer to nothing but their arguments, as all builders of the dialects and
of tables edited from them do. -/
theorem reachable_query_well_scoped {tables : Set TableInfo} {s : QueryState}
    (h : Reachable tables {f | f.PassesReferences} s) :
    (∀ q, Nested q s.last →
      q.WellScoped tables ∧ ∀ i ∈ q.items, i.tableAlias.index < s.aliases.next) ∧
    (∀ a b : TableAlias, a ≠ b →
      Sql.enclose '"' a.identifier ≠ Sql.enclose '"' b.identifier) ∧
    ∀ f collection info, Relation.ReflTransGen Step (.ofTable f collection info) s →
      s.last.aliases.Nodup := by
  have hs := scopedBelow_reachable h
  refine ⟨?_, ?_, ?_⟩
  · intro q hq
    refine ⟨hs.wellScoped q hq, ?_⟩
    intro i hi
    exact hs.bounded _ (hq.mem_aliases (mem_aliases.2 ⟨i, hi, Or.inl rfl⟩))
  · intro a b hab hidentifiers
    exact hab (Sql.identifier_injective (Sql.enclose_injective hidentifiers))
  · intro f collection info hrun
    have hfunctions : s.functions = f := functions_run hrun
    have hf : f.PassesReferences := hfunctions ▸ h.functions_mem
    have hinfo : info ∈ ({info} : Set TableInfo) := rfl
    have htable : ScopedBelow {info} True (ofTable f collection info).last
        (ofTable f collection info).aliases.next := scopedBelow_ofTable hinfo f collection
    exact (scopedBelow_run hf htable hrun).nodup trivial

/-- People above the mean of their group, joined to all people. -/
theorem above_mean_join_well_scoped : ∃ r s t,
    (people .postgres).groupBy [.column "g"] false = .ok r ∧
    r.filter [.call .greaterThan [.column "x", .call .mean [.column "x"] []] []] = .ok s ∧
    (people .postgres).join s (.columns ["g"]) .full = .ok t ∧
    t.aliases.next = 5 ∧ ∀ q, Nested q t.last →
      q.WellScoped {peopleTable} ∧ ∀ i ∈ q.items, i.tableAlias.index < t.aliases.next := by
  have hrun : ∃ r, (people .postgres).groupBy [.column "g"] false = .ok r ∧
      ∃ s, r.filter [.call .greaterThan [.column "x", .call .mean [.column "x"] []] []] = .ok s ∧
        ∃ t, (people .postgres).join s (.columns ["g"]) .full = .ok t ∧ t.aliases.next = 5 :=
    ⟨_, rfl, _, rfl, _, rfl, rfl⟩
  obtain ⟨r, hr, s, hs, t, ht, hnext⟩ := hrun
  have hf := (FunctionTable.builtIn_standard .postgres).passesReferences
  have hpeople : Reachable {peopleTable} {f | f.PassesReferences} (people .postgres) :=
    .table "people" hf rfl
  have hreach := hpeople.join ((hpeople.step (.groupBy hr)).step (.filter hs)) ht
  exact ⟨r, s, t, hr, hs, ht, hnext, (reachable_query_well_scoped hreach).1⟩

end PipelineSql
