import PipelineSql.Proofs.Hoisting
import PipelineSql.Proofs.OrderTranslation
import PipelineSql.Proofs.Scoping

/-!
# Filters and the windows of their predicates

A filter succeeds exactly when its predicates can be compiled with their windows in place. The
statement that it gives reads the windows from a stage that drops no rows, and after putting them
back its condition is the conjunction of these predicates.
-/

namespace PipelineSql

open Sql (Expr Select ColumnRef TableAlias)

section Labels

/-- Labels that differ from one another and from the columns of a scope. -/
structure FreshLabels (scope : Scope) (found : List LabelledWindow) : Prop where
  nodup : (found.map LabelledWindow.label).Nodup
  not_mem : ∀ w ∈ found, w.label ∉ scope.names

variable {scope : Scope} {found : List LabelledWindow}

lemma FreshLabels.nil : FreshLabels scope [] := ⟨List.nodup_nil, by simp⟩

lemma FreshLabels.place (h : FreshLabels scope found) (c : WindowContext) (call : WindowCall) :
    FreshLabels scope (c.place scope found call).2 := by
  have hfresh := freshLabel_not_mem scope found
  rw [List.mem_append, not_or] at hfresh
  constructor
  · simp only [WindowContext.place, List.map_append, List.map_cons, List.map_nil]
    exact List.nodup_append_comm.1 (List.nodup_cons.2 ⟨hfresh.2, h.nodup⟩)
  · intro w hw
    rcases List.mem_append.1 hw with hw | hw
    · exact h.not_mem w hw
    · rw [List.mem_singleton.1 hw]
      exact hfresh.1

/-- Compiling keeps labels apart. -/
lemma freshLabels_compileAll {env : CompileEnv} {mode : Mode} {as : List ColumnExpr}
    {es : List Expr} (h : env.compileAll mode as = .ok (es, found)) :
    FreshLabels env.scope found :=
  windows_of_compileAll .nil (fun _ call hfound => hfound.place env.windows call) h

end Labels

/-- What a column of a stage with windows stands for, in terms of the stage below: the window of
that label, or else the column of that name. -/
def windowColumn (windows subquery : TableAlias) (found : List LabelledWindow) (r : ColumnRef) :
    Expr :=
  (windowOf? windows found r).getD (.column (r.replaceAlias windows subquery))

/-- The references of a condition before it is moved: to the columns of a query, or to labels. -/
def ReadsWindows (q : Select) (subquery windows : TableAlias) (found : List LabelledWindow) :
    Expr → Prop :=
  Expr.Within fun r => q.OutputRef subquery r ∨
    ∃ w ∈ found, r = .labelled (.aliased windows) w.label

section Conditions

variable {q : Select} {subquery windows : TableAlias} {found : List LabelledWindow} {e : Expr}

/-- Moving a condition to the stage with the windows and reading it back puts the windows in. -/
lemma ReadsWindows.bindColumns_windowColumn (h : ReadsWindows q subquery windows found e)
    (hne : subquery ≠ windows) (hfresh : ∀ w ∈ found, w.label ∉ q.columnNames) :
    (e.replaceAlias subquery windows).bindColumns (windowColumn windows subquery found) =
      e.bindColumns (putBack windows found) := by
  rw [Expr.replaceAlias_eq_bindColumns, Expr.bindColumns_bindColumns]
  refine Expr.bindColumns_congr fun r hr => ?_
  rcases h r hr with ⟨n, hn, rfl⟩ | ⟨w, hw, rfl⟩
  · have hmoved : (ColumnRef.labelled (.aliased subquery) n).replaceAlias subquery windows =
        .labelled (.aliased windows) n := by simp [ColumnRef.replaceAlias]
    have hnone : (found.find? fun w => w.label = n) = none := by
      rw [List.find?_eq_none]
      intro w hw hlabel
      exact hfresh w hw (of_decide_eq_true hlabel ▸ hn)
    have helse : Elsewhere windows (.labelled (.aliased subquery) n) := by
      simpa [Elsewhere, ColumnRef.table] using hne
    rw [Expr.bindColumns_column, hmoved, windowColumn, windowOf?_labelled, hnone,
      putBack_elsewhere helse]
    simp [ColumnRef.replaceAlias]
  · have hsome : (found.find? fun v => v.label = w.label).isSome = true :=
      List.find?_isSome.2 ⟨w, hw, by simp⟩
    have hsame : (ColumnRef.labelled (.aliased windows) w.label).replaceAlias subquery windows =
        .labelled (.aliased windows) w.label := by simp [ColumnRef.replaceAlias]
    obtain ⟨v, hv⟩ := Option.isSome_iff_exists.1 hsome
    rw [Expr.bindColumns_column, hsame, windowColumn, putBack, windowOf?_labelled, hv]
    rfl

end Conditions

/-- A query that passes on every row of another one and drops, groups or limits none. -/
structure Sql.Select.KeepsRows (inner q : Select) (tableAlias : TableAlias) : Prop where
  source : inner.source = some (.subquery q tableAlias)
  joins : inner.joins = []
  condition : inner.condition = .always
  groupBy : inner.groupBy = []
  distinct : inner.distinct = false
  limit : inner.limit = none
  offset : inner.offset = none

lemma Sql.Select.keepsRows_reading (columns : List (String × Expr)) (q : Select) (a : TableAlias) :
    (Select.reading columns q a).KeepsRows q a :=
  ⟨rfl, rfl, rfl, rfl, rfl, rfl, rfl⟩

namespace QueryState

variable {s t : QueryState} {tables : Set TableInfo} {predicates : List ColumnExpr}
  {context : WindowContext} {conditions : List Expr} {found : List LabelledWindow}

/-- The alias under which a filter reads the query. -/
def filteredAlias (s : QueryState) : TableAlias := (s.aliases.make "subquery").1

/-- The alias under which a filter reads the windows of its predicates. -/
def windowsAlias (s : QueryState) : TableAlias :=
  ((s.aliases.make "subquery").2.make "windows").1

lemma filteredAlias_ne_windowsAlias : s.filteredAlias ≠ s.windowsAlias := by
  simp [filteredAlias, windowsAlias, Sql.AliasCounter.make]

/-- The columns of the query as a filter reads them. -/
def filteredScope (s : QueryState) : Scope := .ofSubquery s.last s.filteredAlias

/-- The predicates of a filter, compiled with their windows where they appear. -/
def inPlacePredicates (s : QueryState) (predicates : List ColumnExpr) :
    Except Error (List Expr × List LabelledWindow) := do
  let context ← s.windowContext s.filteredScope .inPlace
  CompileEnv.compileAll ⟨s.functions, s.filteredScope, context⟩ .window (predicates.map .shape)

/-- How a filter comes to its rows: a stage computes windows on all rows of the query, and the
condition on the rows of that stage says what the given conditions say about those of the query. -/
structure FiltersBy (s t : QueryState) (conditions : List Expr) (found : List LabelledWindow)
    (inner : Select) : Prop where
  source : t.last.source = some (.subquery inner s.windowsAlias)
  joins : t.last.joins = []
  keepsRows : inner.KeepsRows s.last s.filteredAlias
  columns : inner.columns =
    s.filteredScope.selectList ++ found.map fun w => (w.label, w.expression)
  nodup : (found.map LabelledWindow.label).Nodup
  fresh : ∀ w ∈ found, w.label ∉ s.columnNames
  hidden : ∀ w ∈ found, w.label ∉ t.columnNames
  reads : t.last.condition.Within (inner.OutputRef s.windowsAlias)
  condition : t.last.condition.bindColumns
    (windowColumn s.windowsAlias s.filteredAlias found) = Expr.conjunction conditions

/-- The grouping and the ordering are resolved alike wherever windows go. -/
lemma windowContext_placement (scope : Scope) (placement : Placement) :
    s.windowContext scope .inPlace =
      (s.windowContext scope placement).map fun c => { c with placement := .inPlace } := by
  unfold windowContext
  cases s.groups.toList.mapM scope.lookup with
  | error fault => rfl
  | ok partitionBy =>
    cases s.resolveOrder scope s.order with
    | error fault => rfl
    | ok orderBy => rfl

lemma outputRef_elsewhere {r : ColumnRef} (h : s.last.OutputRef s.filteredAlias r) :
    Elsewhere s.windowsAlias r := by
  obtain ⟨n, _, rfl⟩ := h
  intro htable
  exact filteredAlias_ne_windowsAlias (Sql.TableRef.aliased.inj htable)

lemma within_filteredScope (n : String) (x : Expr) (h : s.filteredScope.lookup n = .ok x) :
    x.Within (s.last.OutputRef s.filteredAlias) :=
  within_lookup_ofSubquery h

/-- A filter takes the windows out of its predicates. -/
lemma hoists (hf : s.functions.Standard)
    (h : s.windowContext s.filteredScope (.hoisted s.windowsAlias) = .ok context) :
    CompileEnv.Hoists ⟨s.functions, s.filteredScope, context⟩ s.windowsAlias := by
  obtain ⟨hpartition, horder⟩ := within_windowContext hf.passesReferences within_filteredScope h
  refine ⟨(windowContext_cases h).1, hf, ?_, ?_, ?_⟩
  · exact fun n x hx => (within_filteredScope n x hx).mono fun _ => outputRef_elsewhere
  · exact fun x hx => (hpartition x hx).mono fun _ => outputRef_elsewhere
  · exact fun u hu => (horder u hu).mono fun _ => outputRef_elsewhere

/-- Compiling the predicates in place is what the filter does, with the windows put back. -/
lemma inPlacePredicates_eq (hf : s.functions.Standard) : s.inPlacePredicates predicates = (do
    let context ← s.windowContext s.filteredScope (.hoisted s.windowsAlias)
    (CompileEnv.compileAll ⟨s.functions, s.filteredScope, context⟩ .window
      (predicates.map .shape)).map fun p =>
        (p.1.map (Expr.bindColumns (putBack s.windowsAlias p.2)), p.2)) := by
  unfold inPlacePredicates
  rw [windowContext_placement s.filteredScope (.hoisted s.windowsAlias)]
  cases hcontext : s.windowContext s.filteredScope (.hoisted s.windowsAlias) with
  | error fault => rfl
  | ok context => exact (hoists hf hcontext).compileArgs_inPlace _ (by simp)

/-- The conditions refer to the columns of the query and to the windows found. -/
lemma readsWindows_compileAll (hf : s.functions.Standard)
    (hcontext : s.windowContext s.filteredScope (.hoisted s.windowsAlias) = .ok context)
    (hall : CompileEnv.compileAll ⟨s.functions, s.filteredScope, context⟩ .window
      (predicates.map .shape) = .ok (conditions, found)) :
    ∀ e ∈ conditions, ReadsWindows s.last s.filteredAlias s.windowsAlias found e := by
  obtain ⟨hpartition, horder⟩ :=
    within_windowContext hf.passesReferences within_filteredScope hcontext
  have rules := scopingRules ⟨s.functions, s.filteredScope, context⟩ .window hf.passesReferences
    hpartition horder
  have hread := (rules.compileAll hall fun _ _ n _ x hx => within_filteredScope n x hx).1
  intro e he
  refine (hread e he).mono ?_
  rintro r (hr | ⟨table, htable, w, hw, rfl⟩)
  · exact Or.inl hr
  · rw [(windowContext_cases hcontext).1, Placement.hoisted.injEq] at htable
    exact Or.inr ⟨w, hw, by rw [htable]⟩

/-- The conditions of a filter, moved to the stage with the windows. -/
lemma within_moved {e : Expr} {inner : Select}
    (h : ReadsWindows s.last s.filteredAlias s.windowsAlias found e)
    (hinner : inner = Select.reading
      (s.filteredScope.selectList ++ found.map fun w => (w.label, w.expression)) s.last
      s.filteredAlias) :
    (e.replaceAlias s.filteredAlias s.windowsAlias).Within (inner.OutputRef s.windowsAlias) := by
  intro r hr
  rw [Expr.refs_replaceAlias] at hr
  obtain ⟨r, href, rfl⟩ := List.mem_map.1 hr
  have hnames : ∀ n, n ∈ s.last.columnNames ∨ (∃ w ∈ found, w.label = n) →
      n ∈ inner.columnNames := fun n hn => hinner ▸ mem_columnNames_of_windows hn
  rcases h r href with ⟨n, hn, rfl⟩ | ⟨w, hw, rfl⟩
  · exact ⟨n, hnames n (Or.inl hn), by simp [ColumnRef.replaceAlias]⟩
  · exact ⟨w.label, hnames _ (Or.inr ⟨w, hw, rfl⟩), by simp [ColumnRef.replaceAlias]⟩

/-- What a filter makes of a query. -/
lemma filtersBy_of_filter (hs : s.Anchored) (hf : s.functions.Standard) (hne : predicates ≠ [])
    (h : s.filter predicates = .ok t) : ∃ conditions found inner,
      s.inPlacePredicates predicates = .ok (conditions, found) ∧
      s.FiltersBy t conditions found inner := by
  rcases filter_cases h with ⟨hnil, _⟩ | ⟨subquery, windows, scope, context, conditions, found,
    inner, list, rfl, rfl, rfl, hcontext, hall, hinner, hlist, rfl⟩
  · exact absurd hnil hne
  have hreads := readsWindows_compileAll hf hcontext hall
  have hfresh := freshLabels_compileAll hall
  have hnew : ∀ w ∈ found, w.label ∉ s.columnNames := fun w hw hmem =>
    hfresh.not_mem w hw (Scope.mem_names_ofSubquery.2 hmem)
  refine ⟨conditions.map (Expr.bindColumns (putBack s.windowsAlias found)), found, inner, ?_,
    rfl, rfl, ?_, ?_, hfresh.nodup, hnew, ?_, ?_, ?_⟩
  · rw [inPlacePredicates_eq hf]
    exact bind_eq_ok.2 ⟨context, hcontext, map_eq_ok.2 ⟨_, hall, rfl⟩⟩
  · rw [hinner]
    exact Select.keepsRows_reading _ _ _
  · rw [hinner]
    rfl
  · intro w hw hmem
    refine hnew w hw ((mem_orderedColumnNames hs).1 ?_)
    rw [← (Scope.project_eq_ok.1 hlist).1]
    exact hmem
  · refine (within_rowClosed _).conjunction ?_
    intro e he
    obtain ⟨e, hmem, rfl⟩ := List.mem_map.1 he
    exact within_moved (hreads e hmem) hinner
  · simp only [push]
    rw [Expr.bindColumns_conjunction, List.map_map]
    refine congrArg _ (List.map_congr_left fun e he => ?_)
    exact (hreads e he).bindColumns_windowColumn filteredAlias_ne_windowsAlias hnew

/-- A filter whose predicates compile in place succeeds. -/
lemma filter_eq_ok_of_inPlace (hs : s.Anchored) (hf : s.functions.Standard)
    (h : s.inPlacePredicates predicates = .ok (conditions, found)) :
    ∃ t, s.filter predicates = .ok t := by
  cases predicates with
  | nil => exact ⟨s, rfl⟩
  | cons p ps =>
    rw [inPlacePredicates_eq hf, bind_eq_ok] at h
    obtain ⟨context, hcontext, h⟩ := h
    obtain ⟨⟨hoisted, windows⟩, hall, _⟩ := map_eq_ok.1 h
    -- the stage with the windows has all columns of the query
    have hlisted : ∀ n ∈ s.orderedColumnNames, n ∈ (Scope.ofSubquery (Select.reading
        (s.filteredScope.selectList ++ windows.map fun w => (w.label, w.expression)) s.last
        s.filteredAlias) s.windowsAlias).names := fun n hn =>
      Scope.mem_names_ofSubquery.2
        (mem_columnNames_of_windows (Or.inl ((mem_orderedColumnNames hs).1 hn)))
    obtain ⟨list, hlist⟩ := exists_project_eq_ok hlisted
    simp only [filter, bind_eq_ok, pure_eq_ok]
    exact ⟨_, context, hcontext, (hoisted, windows), hall, list, hlist, rfl⟩

end QueryState

open QueryState

/-- A filter succeeds exactly when its predicates compile with their windows in place. Its windows
are computed on all rows of the query, under labels that nothing else has, and its condition, with
the windows put back in the place of their labels, is the conjunction of the predicates. -/
theorem filter_reads_windows {tables : Set TableInfo} {s : QueryState}
    (h : Reachable tables {f | f.Standard} s) {predicates : List ColumnExpr}
    (hne : predicates ≠ []) :
    ((∃ t, s.filter predicates = .ok t) ↔ ∃ r, s.inPlacePredicates predicates = .ok r) ∧
    ∀ t, s.filter predicates = .ok t → ∃ conditions found inner,
      s.inPlacePredicates predicates = .ok (conditions, found) ∧
      s.FiltersBy t conditions found inner := by
  have hs : s.Anchored := .reachable h
  have hf : s.functions.Standard := h.functions_mem
  refine ⟨⟨?_, ?_⟩, fun t => filtersBy_of_filter hs hf hne⟩
  · rintro ⟨t, ht⟩
    obtain ⟨conditions, found, _, hplace, _⟩ := filtersBy_of_filter hs hf hne ht
    exact ⟨_, hplace⟩
  · rintro ⟨⟨conditions, found⟩, hplace⟩
    exact filter_eq_ok_of_inPlace hs hf hplace

/-- Numbers between the mean and the greatest one of their group. -/
def betweenMeanAndMax (name : String) : List ColumnExpr :=
  [.call .greaterThan [.column name, .call .mean [.column name] []] [],
    .call .lessThan [.column name, .call .max [.column name] []] []]

/-- Where the numbers are named like a label, the labels skip that name. -/
theorem betweenMeanAndMax_reads_windows : ∃ r s t,
    (people .postgres).rename [("win1", .column "x")] = .ok r ∧
    r.groupBy [.column "g"] false = .ok s ∧
    s.filter (betweenMeanAndMax "win1") = .ok t ∧ ∃ conditions found inner,
      s.inPlacePredicates (betweenMeanAndMax "win1") = .ok (conditions, found) ∧
      found.map LabelledWindow.label = ["win2", "win3"] ∧
      s.FiltersBy t conditions found inner := by
  have hrun : ∃ r, (people .postgres).rename [("win1", .column "x")] = .ok r ∧
      ∃ s, r.groupBy [.column "g"] false = .ok s ∧
        ∃ t, s.filter (betweenMeanAndMax "win1") = .ok t ∧
          (s.inPlacePredicates (betweenMeanAndMax "win1")).map
            (fun p => p.2.map LabelledWindow.label) = .ok ["win2", "win3"] :=
    ⟨_, rfl, _, rfl, _, rfl, rfl⟩
  obtain ⟨r, hr, s, hs, t, ht, hlabels⟩ := hrun
  have hpeople : Reachable {peopleTable} {f | f.Standard} (people .postgres) :=
    .table "people" (FunctionTable.builtIn_standard .postgres) rfl
  have hreach := (hpeople.step (.rename hr)).step (.groupBy hs)
  have hne : betweenMeanAndMax "win1" ≠ [] := by simp [betweenMeanAndMax]
  obtain ⟨conditions, found, inner, hplace, hby⟩ := (filter_reads_windows hreach hne).2 t ht
  rw [hplace] at hlabels
  exact ⟨r, s, t, hr, hs, ht, conditions, found, inner, hplace, Except.ok.inj hlabels, hby⟩

end PipelineSql
