import PipelineSql.Proofs.ColumnNames
import PipelineSql.Proofs.ColumnReads
import PipelineSql.Proofs.Reachability

/-!
# Grouping and ordering stay on the columns of the query

Groups and ordering terms are kept as names, apart from the stage that they are resolved in. Every
verb rebuilds the columns in its own way and adjusts the names along with them, so they can always
be resolved.
-/

namespace PipelineSql

open Sql (Ordered Select AliasCounter TableAlias)

lemma shaped_orderTerm {e : ColumnExpr} (h : e.Shaped) : (orderTerm e).target.Shaped := by
  unfold orderTerm
  split
  · cases h with
    | call hargs _ => exact hargs _ (by simp)
  · cases h with
    | call hargs _ => exact hargs _ (by simp)
  · exact h

lemma mem_keys_withGroups {selection : OrderedMap String} {groups : List String} {k : String} :
    k ∈ (withGroups selection groups).keys ↔
      (k ∈ groups ∧ outputOf? selection k = none) ∨ k ∈ selection.keys := by
  rw [withGroups, OrderedMap.mem_keys_extend, OrderedMap.mem_keys_ofList]
  simp [OrderedMap.keys]

lemma mem_keys_of_outputOf {selection : OrderedMap String} {source k : String}
    (h : outputOf? selection source = some k) : k ∈ selection.keys := by
  obtain ⟨e, he, rfl⟩ := Option.map_eq_some_iff.1 h
  exact List.mem_map_of_mem (List.mem_of_find?_eq_some he)

/-- The new name of a selected column is one of its output names. -/
lemma get?_newName {selection : OrderedMap String} {n : String} (h : n ∈ selection.values) :
    selection.get? (newName (selectionRenames selection) n) = some n := by
  unfold newName
  cases hget : (selectionRenames selection).get? n with
  | some k =>
    obtain ⟨e, he, heq⟩ := List.mem_map.1 (OrderedMap.mem_of_mem_ofList (mem_of_lookup hget))
    cases heq
    exact lookup_of_mem selection.nodup (List.mem_of_mem_filter he)
  | none =>
    obtain ⟨e, he, rfl⟩ := List.mem_map.1 h
    -- A change of name would have been recorded.
    have hsame : e.1 = e.2 := by
      by_contra hne
      have hkey : e.2 ∈ (selectionRenames selection).keys := by
        rw [selectionRenames, OrderedMap.mem_keys_ofList, List.map_map]
        exact List.mem_map.2 ⟨e, by simpa [hne] using he, rfl⟩
      obtain ⟨k, hk⟩ := exists_lookup hkey
      rw [OrderedMap.get?, hk] at hget
      cases hget
    rw [Option.getD_none]
    nth_rewrite 1 [← hsame]
    exact lookup_of_mem selection.nodup he

/-- A selected column is an output column under its new name. -/
lemma newName_selectionRenames_mem {selection : OrderedMap String} {n : String}
    (h : n ∈ selection.values) : newName (selectionRenames selection) n ∈ selection.keys :=
  List.mem_map_of_mem (mem_of_lookup (get?_newName h))

lemma mem_renameOrder {renames : OrderedMap String} {order : List (Ordered ColumnExpr)}
    {names : List String}
    (h : ∀ term ∈ order, term.target.Shaped ∧
      ∀ n ∈ term.target.reads, newName renames n ∈ names) :
    ∀ term ∈ renameOrder renames order, term.target.Shaped ∧
      ∀ n ∈ term.target.reads, n ∈ names := by
  intro term hterm
  obtain ⟨old, hold, rfl⟩ := List.mem_map.1 hterm
  obtain ⟨hshaped, hreads⟩ := h old hold
  refine ⟨hshaped.rename _, ?_⟩
  rw [hshaped.reads_rename]
  simpa using hreads

namespace QueryState

/-- The grouping and the ordering of a query read its own columns. -/
structure Anchored (s : QueryState) : Prop where
  groups : ∀ g ∈ s.groups, g ∈ s.columnNames
  order : ∀ term ∈ s.order, term.target.Shaped ∧ ∀ n ∈ term.target.reads, n ∈ s.columnNames

variable {s t u : QueryState}

namespace Anchored

lemma grow (hs : s.Anchored) (hnames : ∀ n ∈ s.columnNames, n ∈ t.columnNames)
    (hgroups : t.groups = s.groups) (horder : t.order = s.order) : t.Anchored where
  groups := by
    rw [hgroups]
    exact fun g hg => hnames g (hs.groups g hg)
  order := by
    rw [horder]
    intro term hterm
    obtain ⟨hshaped, hreads⟩ := hs.order term hterm
    exact ⟨hshaped, fun n hn => hnames n (hreads n hn)⟩

lemma unordered (hgroups : ∀ g ∈ t.groups, g ∈ t.columnNames) (horder : t.order = []) :
    t.Anchored where
  groups := hgroups
  order := by simp [horder]

lemma ofTable (functions : FunctionTable) (collection : String) (table : TableInfo) :
    (QueryState.ofTable functions collection table).Anchored :=
  unordered (fun _ hg => absurd hg List.not_mem_nil) rfl

lemma select {columns : List ColumnExpr} (hs : s.Anchored) (h : s.select columns = .ok t) :
    t.Anchored := by
  obtain ⟨chosen, hnames, hgroups, horder⟩ := columnNames_select h
  constructor
  · rw [hgroups, hnames]
    intro g hg
    obtain ⟨old, hold, rfl⟩ := List.mem_map.1 (OrderedSet.mem_ofList.1 hg)
    rw [mem_keys_withGroups]
    cases hout : outputOf? chosen old with
    | none => exact Or.inl ⟨hold, hout⟩
    | some k => exact Or.inr (mem_keys_of_outputOf hout)
  · rw [horder, hnames]
    refine mem_renameOrder ?_
    intro term hterm
    obtain ⟨hmem, hall⟩ := List.mem_filter.1 hterm
    refine ⟨(hs.order term hmem).1, ?_⟩
    intro n hn
    exact newName_selectionRenames_mem (by simpa using List.all_eq_true.1 hall n hn)

lemma rename {columns : List (String × ColumnExpr)} (hs : s.Anchored)
    (h : s.rename columns = .ok t) : t.Anchored := by
  obtain ⟨renames, hnames, _, hgroups, horder⟩ := columnNames_rename h
  constructor
  · rw [hgroups, hnames]
    intro g hg
    obtain ⟨old, hold, rfl⟩ := List.mem_map.1 (OrderedSet.mem_ofList.1 hg)
    exact List.mem_map_of_mem (hs.groups old hold)
  · rw [horder, hnames]
    refine mem_renameOrder ?_
    intro term hterm
    obtain ⟨hshaped, hreads⟩ := hs.order term hterm
    exact ⟨hshaped, fun n hn => List.mem_map_of_mem (hreads n hn)⟩

lemma filter {predicates : List ColumnExpr} (hs : s.Anchored)
    (h : s.filter predicates = .ok t) : t.Anchored := by
  rcases columnNames_filter h with ⟨_, rfl⟩ | ⟨hnames, hgroups, horder⟩
  · exact hs
  · refine hs.grow ?_ hgroups horder
    intro n hn
    rw [hnames]
    exact OrderedSet.mem_extend.2 (Or.inr hn)

lemma mutate {columns : List (String × ColumnExpr)} (hs : s.Anchored)
    (h : s.mutate columns = .ok t) : t.Anchored := by
  rcases mutate_cases h with ⟨_, rfl⟩ | ⟨q, aliases, hadd, rfl⟩
  · exact hs
  · exact hs.grow (fun n hn => mem_columnNames_addColumns hadd hn) rfl rfl

/-- The terms of `arrange` have been resolved among the columns, so these hold what they read. -/
lemma arrange {terms : List ColumnExpr} (hs : s.Anchored) (h : s.arrange terms = .ok t) :
    t.Anchored := by
  rcases arrange_cases h with rfl | ⟨base, aliases, resolved, hwrap, hresolved, rfl⟩
  · exact hs
  have hnames : base.columnNames = s.columnNames := columnNames_wrapIf hwrap
  have hadded : ∀ term ∈ terms.map (fun e => orderTerm e.shape), term.target.Shaped ∧
      ∀ n ∈ term.target.reads, n ∈ base.columnNames := by
    intro term hterm
    constructor
    · obtain ⟨e, _, rfl⟩ := List.mem_map.1 hterm
      exact shaped_orderTerm e.shaped_shape
    · intro n hn
      obtain ⟨_, _, hcompile⟩ := exists_of_forall₂ (mapM_eq_ok.1 hresolved).flip hterm
      simp only [bind_eq_ok] at hcompile
      obtain ⟨x, hx, _⟩ := hcompile
      obtain ⟨y, hy⟩ := CompileEnv.resolved_of_compileExpr hx n hn
      exact Scope.mem_names_ofSelectList.1 (Scope.mem_names_of_lookup hy)
  constructor
  · intro g hg
    have hmem : g ∈ base.columnNames := hnames ▸ hs.groups g hg
    exact hmem
  · intro term hterm
    rcases List.mem_append.1 hterm with hold | hnew
    · obtain ⟨hshaped, hreads⟩ := hs.order term hold
      refine ⟨hshaped, fun n hn => ?_⟩
      have hmem : n ∈ base.columnNames := hnames ▸ hreads n hn
      exact hmem
    · exact hadded term hnew

lemma summarize {columns : List (String × ColumnExpr)} (h : s.summarize columns = .ok t) :
    t.Anchored := by
  obtain ⟨_, _, _, _, _, _, _, _, _, _, _, rfl⟩ := summarize_cases h
  exact unordered (fun g hg => absurd hg List.not_mem_nil) rfl

lemma count {columns : List ColumnExpr} {name : Option String} {sort : Bool}
    (h : s.count columns name sort = .ok t) : t.Anchored := by
  obtain ⟨groups, groupColumns, hfst, hmem, hcolumns, _, hgroups, horder⟩ := columnNames_count h
  refine unordered ?_ horder
  rw [hgroups]
  intro g hg
  rw [columnNames, Select.columnNames, hcolumns, List.map_append, hfst]
  exact List.mem_append_left _ (hmem g hg)

lemma distinct {columns : List ColumnExpr} {computed : List (String × ColumnExpr)}
    {keepAll : Bool} (h : s.distinct columns computed keepAll = .ok t) : t.Anchored := by
  obtain ⟨base, names, hnames, hgroups, horder⟩ := columnNames_distinct h
  refine unordered ?_ horder
  rw [hgroups, hnames]
  intro g hg
  exact of_decide_eq_true (OrderedSet.mem_filter.1 hg).2

/-- A new group is one of the columns. -/
lemma groupBy {columns : List ColumnExpr} {add : Bool} (hs : s.Anchored)
    (h : s.groupBy columns add = .ok t) : t.Anchored := by
  unfold QueryState.groupBy at h
  simp only [bind_eq_ok, pure_eq_ok] at h
  obtain ⟨groups, hgroups, rfl⟩ := h
  refine ⟨?_, hs.order⟩
  refine foldlM_induction (motive := fun groups : OrderedSet => ∀ g ∈ groups, g ∈ s.columnNames)
    ?_ ?_ hgroups
  · intro before e after hbefore hstep
    split at hstep
    · obtain ⟨name, hknown, rfl⟩ := map_eq_ok.1 hstep
      unfold Selector.known at hknown
      split at hknown
      · rename_i hmem
        cases hknown
        intro g hg
        rcases OrderedSet.mem_insert.1 hg with hg | rfl
        · exact hbefore g hg
        · exact hmem
      · cases hknown
    · cases hstep
  · split
    · exact hs.groups
    · exact fun g hg => absurd hg List.not_mem_nil

lemma join {keys : JoinKeys} {kind : JoinKind} (h : s.join t keys kind = .ok u) : u.Anchored := by
  obtain ⟨_, _, _, _, _, _, leftList, rightList, _, _, _, _, _, _, _, _, _, _, rfl⟩ := join_cases h
  refine unordered ?_ rfl
  intro g hg
  have hmem := of_decide_eq_true (OrderedSet.mem_filter.1 hg).2
  simpa [pushWith, push, columnNames, Select.columnNames] using hmem

lemma step (hs : s.Anchored) (h : Step s t) : t.Anchored := by
  cases h with
  | select h => exact hs.select h
  | rename h => exact hs.rename h
  | filter h => exact hs.filter h
  | mutate h => exact hs.mutate h
  | arrange h => exact hs.arrange h
  | summarize h => exact summarize h
  | count h => exact count h
  | distinct h => exact distinct h
  | head n => exact ⟨hs.groups, hs.order⟩
  | groupBy h => exact hs.groupBy h
  | ungroup => exact ⟨fun g hg => absurd hg List.not_mem_nil, hs.order⟩

lemma reachable {tables : Set TableInfo} {functions : Set FunctionTable}
    (h : Reachable tables functions s) : s.Anchored := by
  induction h with
  | table collection _ _ => exact ofTable _ collection _
  | step _ hstep ih => exact ih.step hstep
  | join _ _ hjoin _ _ => exact join hjoin

/-- Where all columns can be seen, resolving the grouping and the ordering misses none. -/
lemma windowContext_ne_unknown (hs : s.Anchored) {scope : Scope}
    (hscope : ∀ n ∈ s.columnNames, n ∈ scope.names) (placement : Placement) (name : String)
    (available : List String) :
    s.windowContext scope placement ≠ .error (.unknownColumn name available) := by
  intro h
  unfold windowContext at h
  rcases bind_eq_error.1 h with hgroups | ⟨_, _, h⟩
  · obtain ⟨g, hg, hlookup⟩ := exists_of_mapM_eq_error hgroups
    obtain ⟨rfl, hmissing⟩ := Scope.lookup_unknown hlookup
    exact hmissing (hscope g (hs.groups g hg))
  rcases bind_eq_error.1 h with horder | ⟨_, _, h⟩
  · obtain ⟨term, hterm, hresolve⟩ := exists_of_mapM_eq_error horder
    rcases bind_eq_error.1 hresolve with hcompile | ⟨_, _, hpure⟩
    · obtain ⟨hreads, hmissing⟩ := CompileEnv.compileExpr_unknown hcompile
      exact hmissing (hscope name ((hs.order term hterm).2 name hreads))
    · cases hpure
  · cases h

end Anchored

lemma mem_orderedColumnNames (hs : s.Anchored) {n : String} :
    n ∈ s.orderedColumnNames ↔ n ∈ s.columnNames := by
  rw [orderedColumnNames, ← OrderedSet.mem_def, OrderedSet.mem_extend]
  constructor
  · rintro (hgroup | hcolumn)
    · exact hs.groups n hgroup
    · exact hcolumn
  · exact Or.inr

end QueryState

open QueryState

/-- In every query that can be built, the grouping and the ordering read output columns. So the
columns in grouping order are the output columns, and the windows of a filter, and those of
every column of a mutate, find all the columns that they partition and order by. -/
theorem reachable_grouping_and_ordering_resolve {tables : Set TableInfo}
    {functions : Set FunctionTable} {s : QueryState} (h : Reachable tables functions s) :
    (∀ g ∈ s.groups, g ∈ s.columnNames) ∧
      (∀ term ∈ s.order, ∀ n ∈ term.target.reads, n ∈ s.columnNames) ∧
      (∀ n, n ∈ s.orderedColumnNames ↔ n ∈ s.columnNames) ∧
      (∀ subquery placement name available,
        s.windowContext (.ofSubquery s.last subquery) placement ≠
          .error (.unknownColumn name available)) ∧
      ∀ columns q aliases, s.addColumns columns s.last s.aliases = .ok (q, aliases) →
        ∀ needed placement name available,
          s.windowContext (.ofSelectList (wrapIf needed q aliases).1) placement ≠
            .error (.unknownColumn name available) := by
  have hs : s.Anchored := .reachable h
  refine ⟨hs.groups, fun term hterm => (hs.order term hterm).2, fun n => mem_orderedColumnNames hs,
    ?_, ?_⟩
  · intro subquery
    exact hs.windowContext_ne_unknown fun n hn => Scope.mem_names_ofSubquery.2 hn
  · intro columns q aliases hadd needed
    refine hs.windowContext_ne_unknown ?_
    intro n hn
    have hnames : (wrapIf needed q aliases).1.columnNames = q.columnNames := columnNames_wrapIf rfl
    rw [Scope.mem_names_ofSelectList, hnames]
    exact mem_columnNames_addColumns hadd hn

/-- Groups and an ordering that are renamed, selected without being asked for, and kept through a
filter. -/
def renamedGroups : Request where
  collection := "people"
  pipeline := [.groupBy [.column "g"] false,
    .arrange [.call .descending [.index .reference (.literal (.str "x"))] []],
    .rename (.ofList [("team", .column "g"), ("g", .column "x")]),
    .select [.call .equal [.column "points", .column "g"] []],
    .filter [.call .greaterThan [.call .runningSum [.column "points"] [],
      .literal (.int 10)] []]]

theorem renamedGroups_resolve : ∃ s, renamedGroups.run peopleCatalog (.builtIn .postgres) = .ok s ∧
    (s.groups.toList, s.order.map fun term => term.target.reads) = (["team"], [["points"]]) ∧
    (∀ g ∈ s.groups, g ∈ s.columnNames) ∧
    (∀ term ∈ s.order, ∀ n ∈ term.target.reads, n ∈ s.columnNames) ∧
    (∀ n, n ∈ s.orderedColumnNames ↔ n ∈ s.columnNames) ∧
    ∀ subquery placement name available,
      s.windowContext (.ofSubquery s.last subquery) placement ≠
        .error (.unknownColumn name available) := by
  have hrun : (renamedGroups.run peopleCatalog (.builtIn .postgres)).map (fun s =>
      (s.groups.toList, s.order.map fun term => term.target.reads)) =
        .ok (["team"], [["points"]]) := by decide +kernel
  obtain ⟨s, hs, hnames⟩ := map_eq_ok.1 hrun
  obtain ⟨hgroups, horder, hcolumns, hfilter, _⟩ :=
    reachable_grouping_and_ordering_resolve (renamedGroups.run_reachable hs)
  exact ⟨s, hs, hnames, hgroups, horder, hcolumns, hfilter⟩

end PipelineSql
