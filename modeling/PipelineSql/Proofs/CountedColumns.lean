import PipelineSql.Proofs.AmbiguousColumns
import PipelineSql.Proofs.GroupsAndOrder

/-!
# What rows are counted by

`count` computes what it counts by in an inner stage, each expression under the text in which it is
displayed, and the outer stage groups by these names. Two expressions that are displayed alike get
one column between them, in which the later one stands.
-/

namespace PipelineSql

open Sql (Expr Select TableAlias)

/-- The name under which rows are counted by an expression: that of a column, or the text in which
the expression is displayed. -/
def ColumnExpr.countLabel (e : ColumnExpr) : String := e.simpleName?.getD e.display

namespace QueryState

variable {s t : QueryState}

/-- What the columns of a query stand for where rows are counted. -/
def countScope (s : QueryState) : Scope := .ofSubquery s.last ⟨"subquery", s.aliases.next⟩

/-- What rows are to be counted by: a column, or what an expression compiles to. -/
def countValue (s : QueryState) (e : ColumnExpr) : Except Error Expr :=
  match e.simpleName? with
  | some n => s.countScope.lookup n
  | none => s.compileIn s.countScope .scalar {} e

/-- All that rows are counted by: the grouping columns and the arguments. -/
def countedBy (s : QueryState) (columns : List ColumnExpr) : List ColumnExpr :=
  s.groups.toList.map .column ++ columns.map .shape

/-- The names that rows are counted by, each once. -/
def countLabels (s : QueryState) (columns : List ColumnExpr) : List String :=
  (s.groups.extend (columns.map fun e => e.shape.countLabel)).toList

section Columns

variable {columns : List ColumnExpr} {counted : List String} {list list' : List (String × Expr)}

/-- One argument is entered under its name, unless it is a column already. -/
lemma countedColumns_cons {e : ColumnExpr}
    (h : s.countedColumns s.countScope (e :: columns) list = .ok (counted, list')) :
    ∃ labels mid x, counted = e.shape.countLabel :: labels ∧ s.countValue e.shape = .ok x ∧
      mid = (if e.shape.simpleName? = none then putEntry e.shape.countLabel x list else list) ∧
      s.countedColumns s.countScope columns mid = .ok (labels, list') := by
  simp only [countedColumns] at h
  cases hname : e.shape.simpleName? with
  | some n =>
    simp only [hname, bind_eq_ok, pure_eq_ok, map_eq_ok] at h
    obtain ⟨_, ⟨x, hx, rfl⟩, ⟨labels, list₁⟩, hrest, he⟩ := h
    cases he
    refine ⟨labels, list, x, ?_, ?_, ?_, hrest⟩
    · rw [ColumnExpr.countLabel, hname, Option.getD_some]
    · rw [countValue, hname]
      exact hx
    · rw [if_neg (by simp)]
  | none =>
    simp only [hname, bind_eq_ok, pure_eq_ok] at h
    obtain ⟨x, hx, _, rfl, ⟨labels, list₁⟩, hrest, he⟩ := h
    cases he
    have hlabel : e.shape.countLabel = e.shape.display := by
      rw [ColumnExpr.countLabel, hname, Option.getD_none]
    refine ⟨labels, _, x, ?_, ?_, rfl, ?_⟩
    · rw [hlabel]
    · rw [countValue, hname]
      exact hx
    · rw [if_pos rfl, hlabel]
      exact hrest

/-- What counting by some arguments does to the columns of the inner stage: under a name stands the
value of an expression that is displayed so, if there is one, and else what stood there. -/
structure Counted (s : QueryState) (columns : List ColumnExpr) (counted : List String)
    (list list' : List (String × Expr)) : Prop where
  labels : counted = columns.map fun e => e.shape.countLabel
  values : ∀ e ∈ columns, ∃ x, s.countValue e.shape = .ok x
  nodup : (list.map Prod.fst).Nodup → (list'.map Prod.fst).Nodup
  lookup : ∀ n,
    (∃ e ∈ columns, e.shape.countLabel = n ∧
      ∃ x, s.countValue e.shape = .ok x ∧ list'.lookup n = some x) ∨
    (∀ e ∈ columns, e.shape.simpleName? = none → e.shape.countLabel ≠ n) ∧
      list'.lookup n = list.lookup n

lemma counted_of_countedColumns
    (h : s.countedColumns s.countScope columns list = .ok (counted, list')) :
    s.Counted columns counted list list' := by
  induction columns generalizing counted list with
  | nil =>
    cases h
    exact ⟨rfl, by simp, id, fun n => Or.inr ⟨by simp, rfl⟩⟩
  | cons e columns ih =>
    obtain ⟨labels, mid, x, rfl, hx, hmid, hrest⟩ := countedColumns_cons h
    have hcounted := ih hrest
    refine ⟨?_, ?_, ?_, ?_⟩
    · rw [hcounted.labels, List.map_cons]
    · exact List.forall_mem_cons.2 ⟨⟨x, hx⟩, hcounted.values⟩
    · intro hnodup
      refine hcounted.nodup ?_
      rw [hmid]
      split
      · exact nodup_putEntry hnodup
      · exact hnodup
    · intro n
      rcases hcounted.lookup n with ⟨e', he', hlabel, hvalue⟩ | ⟨hnone, hlookup⟩
      · exact Or.inl ⟨e', List.mem_cons_of_mem _ he', hlabel, hvalue⟩
      by_cases hwrites : e.shape.simpleName? = none ∧ e.shape.countLabel = n
      · obtain ⟨hname, rfl⟩ := hwrites
        rw [hmid, if_pos hname, lookup_putEntry, if_pos rfl] at hlookup
        exact Or.inl ⟨e, List.mem_cons_self, rfl, x, hx, hlookup⟩
      · refine Or.inr ⟨?_, ?_⟩
        · rw [List.forall_mem_cons]
          exact ⟨fun hname hlabel => hwrites ⟨hname, hlabel⟩, hnone⟩
        · rw [hlookup, hmid]
          split
          · rename_i hname
            rw [lookup_putEntry, if_neg fun hlabel => hwrites ⟨hname, hlabel.symm⟩]
          · rfl

end Columns

/-- The stages of a count: an inner one that reads everything from the query and keeps its rows, and
an outer one that groups them by the given names and gives these and the number of rows. -/
structure CountStages (s t : QueryState) (columns : List ColumnExpr) (inner : Select) : Prop where
  keepsRows : inner = .reading inner.columns s.last ⟨"subquery", s.aliases.next⟩
  source : t.last.source = some (.subquery inner ⟨"grouped", s.aliases.next + 1⟩)
  groupBy : t.last.groupBy =
    (s.countLabels columns).map (.labelled ⟨"grouped", s.aliases.next + 1⟩)
  columns : ∃ total ∉ s.countLabels columns, t.last.columns =
    (s.countLabels columns).map (fun n => (n, .labelled ⟨"grouped", s.aliases.next + 1⟩ n)) ++
      [(total, .countAll)]

section Count

variable {columns : List ColumnExpr} {name : Option String} {sort : Bool}

lemma countStages_of_count (h : s.count columns name sort = .ok t) :
    ∃ inner counted, s.CountStages t columns inner ∧
      s.Counted columns counted s.countScope.selectList inner.columns := by
  obtain ⟨_, _, _, counted, list, _, groups, groupColumns, rfl, rfl, rfl, hcounted, rfl, rfl,
    hproject, rfl⟩ := count_cases h
  have hspec : s.Counted columns counted s.countScope.selectList list :=
    counted_of_countedColumns hcounted
  have hlabels : (s.groups.extend counted).toList = s.countLabels columns := by
    rw [hspec.labels, countLabels]
  have hcolumns := Scope.project_ofSubquery hproject
  rw [hlabels] at hcolumns
  refine ⟨.reading list s.last ⟨"subquery", s.aliases.next⟩, counted, ⟨rfl, rfl, ?_, ?_⟩, hspec⟩
  · simp [pushWith, push, hcolumns, Function.comp_def]
  · refine ⟨countName (s.countLabels columns) (name.getD "n"), countName_not_mem _, ?_⟩
    rw [← hcolumns, ← hlabels]
    rfl

/-- Whatever rows are counted by can be computed. -/
lemma exists_countValue (hs : s.Anchored) {counted : List String} {list list' : List (String × Expr)}
    (hcounted : s.Counted columns counted list list') {e : ColumnExpr}
    (he : e ∈ s.countedBy columns) : ∃ x, s.countValue e = .ok x := by
  rcases List.mem_append.1 he with he | he
  · obtain ⟨g, hg, rfl⟩ := List.mem_map.1 he
    obtain ⟨x, hx⟩ := exists_lookup (Scope.mem_names_ofSubquery.2 (hs.groups g hg))
    exact ⟨x, Scope.lookup_eq_ok.2 hx⟩
  · obtain ⟨c, hc, rfl⟩ := List.mem_map.1 he
    exact hcounted.values c hc

/-- Under the name of something that rows are counted by stands a value of this name, though maybe
not its own. -/
lemma lookup_countLabel (hs : s.Anchored) {counted : List String} {inner : Select}
    (hcounted : s.Counted columns counted s.countScope.selectList inner.columns) {e : ColumnExpr}
    (he : e ∈ s.countedBy columns) : ∃ e' ∈ s.countedBy columns, e'.countLabel = e.countLabel ∧
      (Scope.ofSelectList inner).lookup e.countLabel = s.countValue e' := by
  have hnodup := hcounted.nodup s.countScope.columns.nodup
  have hget : ∀ n, (Scope.ofSelectList inner).columns.get? n = inner.columns.lookup n := by
    intro n
    rw [Scope.ofSelectList, OrderedMap.get?, OrderedMap.entries_ofList_of_nodup hnodup]
  rcases hcounted.lookup e.countLabel with ⟨c, hc, hlabel, x, hx, hlookup⟩ | ⟨hnone, hlookup⟩
  · refine ⟨c.shape, List.mem_append_right _ (List.mem_map_of_mem hc), hlabel, ?_⟩
    rw [hx, Scope.lookup_eq_ok, hget, hlookup]
  · -- No expression is displayed like this one, so it is a column.
    refine ⟨e, he, rfl, ?_⟩
    obtain ⟨n, hn⟩ : ∃ n, e.simpleName? = some n := by
      rw [← Option.ne_none_iff_exists']
      intro hname
      rcases List.mem_append.1 he with he | he
      · obtain ⟨g, _, rfl⟩ := List.mem_map.1 he
        cases hname
      · obtain ⟨c, hc, rfl⟩ := List.mem_map.1 he
        exact hnone c hc hname rfl
    obtain ⟨x, hx⟩ := exists_countValue hs hcounted he
    have hlabel : e.countLabel = n := by rw [ColumnExpr.countLabel, hn, Option.getD_some]
    have hvalue : s.countScope.lookup n = .ok x := by rwa [countValue, hn] at hx
    rw [hx, Scope.lookup_eq_ok, hget, hlookup, hlabel]
    exact Scope.lookup_eq_ok.1 hvalue

end Count

end QueryState

open QueryState

/-- In every query that can be built, `count` groups by the names of the grouping columns and of its
arguments, and each of these has a value. It counts by all these values exactly when those that
differ have different names; a text that displays two expressions makes one of them disappear. -/
theorem counted_by_own_values_iff {tables : Set TableInfo} {functions : Set FunctionTable}
    {s t : QueryState} (h : Reachable tables functions s) {columns : List ColumnExpr}
    {name : Option String} {sort : Bool} (hcount : s.count columns name sort = .ok t) :
    ∃ inner, s.CountStages t columns inner ∧
      (∀ e ∈ s.countedBy columns, ∃ x, s.countValue e = .ok x) ∧
      ((∀ e ∈ s.countedBy columns,
          (Scope.ofSelectList inner).lookup e.countLabel = s.countValue e) ↔
        ∀ e ∈ s.countedBy columns, ∀ e' ∈ s.countedBy columns,
          s.countValue e ≠ s.countValue e' → e.countLabel ≠ e'.countLabel) := by
  have hs : s.Anchored := .reachable h
  obtain ⟨inner, counted, hstages, hcounted⟩ := countStages_of_count hcount
  refine ⟨inner, hstages, fun e he => exists_countValue hs hcounted he, ?_, ?_⟩
  · intro hown e he e' he' hvalues hlabels
    apply hvalues
    rw [← hown e he, ← hown e' he', hlabels]
  · intro hapart e he
    obtain ⟨e', he', hlabel, hlookup⟩ := lookup_countLabel hs hcounted he
    by_contra hown
    rw [hlookup] at hown
    exact hapart e' he' e he hown hlabel

/-- A sum that is doubled. -/
def doubledSum : ColumnExpr :=
  .call .multiply [.call .add [.column "x", .literal (.int 1)] [], .literal (.int 2)] []

/-- A sum with a product. -/
def sumWithProduct : ColumnExpr :=
  .call .add [.column "x", .call .multiply [.literal (.int 1), .literal (.int 2)] []] []

theorem doubledSum_counted_beside_column : ∃ t inner,
    (people .postgres).count [.column "x", doubledSum] none false = .ok t ∧
    (people .postgres).CountStages t [.column "x", doubledSum] inner ∧
    (Scope.ofSelectList inner).lookup "x" = (people .postgres).countValue (.column "x") ∧
    (Scope.ofSelectList inner).lookup "x + 1 * 2" = (people .postgres).countValue doubledSum := by
  obtain ⟨t, ht⟩ : ∃ t, (people .postgres).count [.column "x", doubledSum] none false = .ok t :=
    ⟨_, rfl⟩
  have hpeople : Reachable {peopleTable} {.builtIn .postgres} (people .postgres) :=
    .table "people" rfl rfl
  obtain ⟨inner, hstages, _, hiff⟩ := counted_by_own_values_iff hpeople ht
  have hcounted : (people .postgres).countedBy [.column "x", doubledSum] =
      [.column "x", doubledSum] := rfl
  have hx : (ColumnExpr.column "x").countLabel = "x" := rfl
  have hsum : doubledSum.countLabel = "x + 1 * 2" := rfl
  rw [hcounted] at hiff
  have hown := hiff.2 (by simp [hx, hsum])
  exact ⟨t, inner, ht, hstages, hown (.column "x") (by simp), hown doubledSum (by simp)⟩

/-- Displayed without parentheses, the two are one text, and nobody is counted by the doubled sum:
no column of the inner stage is computed from it. -/
theorem doubledSum_not_counted : ∃ t inner,
    (people .postgres).count [doubledSum, sumWithProduct] none false = .ok t ∧
    t.last.source = some (.subquery inner ⟨"grouped", 2⟩) ∧
    t.last.groupBy = [.labelled ⟨"grouped", 2⟩ "x + 1 * 2"] ∧
    t.columnNames = ["x + 1 * 2", "n"] ∧
    (people .postgres).countValue doubledSum ≠ (people .postgres).countValue sumWithProduct ∧
    ∀ c ∈ inner.columns, (people .postgres).countValue doubledSum ≠ .ok c.2 := by
  have hrun : ∃ t inner,
      (people .postgres).count [doubledSum, sumWithProduct] none false = .ok t ∧
      t.last.source = some (.subquery inner ⟨"grouped", 2⟩) ∧
      t.last.groupBy = [.labelled ⟨"grouped", 2⟩ "x + 1 * 2"] ∧
      t.columnNames = ["x + 1 * 2", "n"] ∧
      inner.columns = [("g", .labelled ⟨"subquery", 1⟩ "g"), ("x", .labelled ⟨"subquery", 1⟩ "x"),
        ("x + 1 * 2", .binary (.labelled ⟨"subquery", 1⟩ "x") "+"
          (.binary (.value (.int 1)) "*" (.value (.int 2))))] :=
    ⟨_, _, rfl, rfl, rfl, rfl, rfl⟩
  have hdoubled : (people .postgres).countValue doubledSum =
      .ok (.binary (.binary (.labelled ⟨"subquery", 1⟩ "x") "+" (.value (.int 1))) "*"
        (.value (.int 2))) := rfl
  have hproduct : (people .postgres).countValue sumWithProduct =
      .ok (.binary (.labelled ⟨"subquery", 1⟩ "x") "+"
        (.binary (.value (.int 1)) "*" (.value (.int 2)))) := rfl
  obtain ⟨t, inner, ht, hsource, hgroupBy, hnames, hcolumns⟩ := hrun
  refine ⟨t, inner, ht, hsource, hgroupBy, hnames, ?_, ?_⟩
  · rw [hdoubled, hproduct]
    simp
  · rw [hdoubled, hcolumns]
    simp [Expr.labelled]

end PipelineSql
