import PipelineSql.Proofs.Reachability
import PipelineSql.Proofs.RowCompilation

/-!
# Row-wise pipelines keep their meaning

Each verb decides by itself whether to change the current statement or to read it through a
subquery. Either way the rows of the statement are what the verb makes of the rows before it, so a
whole pipeline computes what its verbs do one after another.
-/

namespace PipelineSql

open Sql (Expr Select TableRef TableAlias AliasCounter)
open Sql.Select

/-- Rows with the same labels stay apart when they are relabelled. -/
lemma Row.relabel_injective {V : Type} {f : String → String} {a b : Row V}
    (hlabels : a.map Prod.fst = b.map Prod.fst) (h : a.relabel f = b.relabel f) : a = b := by
  induction a generalizing b with
  | nil =>
    cases b with
    | nil => rfl
    | cons c b => simp at hlabels
  | cons c a ih =>
    cases b with
    | nil => simp at hlabels
    | cons d b =>
      simp only [relabel, List.map_cons, List.cons.injEq, Prod.mk.injEq] at hlabels h
      rw [ih hlabels.2 h.2, Prod.ext hlabels.1 h.1.2]

variable {V : Type} [DecidableEq V] {I : Interpretation V} {db : TableRef → List (String → V)}
  {dialect : Dialect}

/-- A statement with distinct labels, whose rows are those of a relation. -/
structure Computes (I : Interpretation V) (db : TableRef → List (String → V)) (q : Select)
    (r : Relation V) : Prop where
  names : q.columnNames = r.names
  nodup : q.columnNames.Nodup
  rows : q.rows I db = some r.rows

namespace Computes

variable {q : Select} {r : Relation V}

lemma wrapIf {needed : Bool} {base : Select} {aliases aliases' : AliasCounter}
    (hq : Computes I db q r) (h : QueryState.wrapIf needed q aliases = (base, aliases')) :
    Computes I db base r := by
  rcases QueryState.wrapIf_cases h with ⟨_, rfl, _⟩ | ⟨rfl, _⟩
  · exact hq
  · exact ⟨(columnNames_throughSubquery q _).trans hq.names, nodup_throughSubquery hq.nodup _,
      rows_throughSubquery hq.rows hq.nodup _⟩

lemma lookup (hq : Computes I db q r) {n : String} {x : Expr}
    (h : (Scope.ofSelectList q).lookup n = .ok x) : q.columns.lookup n = some x := by
  have hentries := OrderedMap.entries_ofList_of_nodup (l := q.columns) hq.nodup
  rw [Scope.lookup_eq_ok, Scope.ofSelectList, OrderedMap.get?, hentries] at h
  exact h

section Pick

variable {selection : List (String × String)} {list : List (String × Expr)}
  (hlist : List.Forall₂ (fun e c => c.1 = e.1 ∧
    (Scope.ofSelectList q).lookup e.2 = .ok c.2) selection list)

include hlist

/-- A select list of columns of the statement picks the values of these columns. -/
lemma evalColumns_pick (hq : Computes I db q r) {env : Sql.Env V} {row : Row V}
    (hrow : evalColumns I q.columns env = some row) :
    ∃ row', evalColumns I list env = some row' ∧ row.pick selection = some row' := by
  have hboth : List.Forall₂ (fun e c => ∃ v : String × V,
      ((row.lookup e.2).map fun value => (e.1, value)) = some v ∧
        v.1 = c.1 ∧ c.2.eval I env = some v.2) selection list := by
    refine hlist.imp ?_
    rintro e c ⟨hname, hlookup⟩
    obtain ⟨v, hv, heval⟩ := lookup_of_evalColumns hrow (hq.lookup hlookup)
    exact ⟨(e.1, v), by rw [hv]; rfl, hname.symm, heval⟩
  obtain ⟨row', hselection, hcolumns⟩ := exists_forall₂ hboth
  exact ⟨row', evalColumns_eq_some.2 hcolumns, mapM_eq_some.2 hselection⟩

/-- Where rows may repeat, exchanging the select list for columns of the statement is a
projection. -/
lemma pick (hq : Computes I db q r) (hdistinct : q.distinct = false)
    (hnodup : (selection.map Prod.fst).Nodup) :
    ∃ r', r.pick selection = some r' ∧ Computes I db { q with columns := list } r' := by
  obtain ⟨rows, hrows, hr⟩ := rows_edit_mapM (r := { q with columns := list }) hq.rows hdistinct rfl
    rfl (fun _ => rfl) fun env row hrow => hq.evalColumns_pick hlist hrow
  have hnames := map_fst_of_forall₂ hlist
  refine ⟨⟨selection.map Prod.fst, rows⟩, by simp [Relation.pick, hrows], hnames, ?_, hr⟩
  rw [columnNames, hnames]
  exact hnodup

/-- The same for a statement that leaves all its rows, followed by the removal of repeated rows. -/
lemma pick_unique (hq : Computes I db q r) (hchanges : q.changesRowSet = false)
    (hnodup : (selection.map Prod.fst).Nodup) :
    ∃ r', r.pick selection = some r' ∧
      Computes I db { q with columns := list, distinct := true } r'.unique := by
  obtain ⟨raw, raw', hraw, _, hrows, hr⟩ := rows_edit
    (r := { q with columns := list, distinct := true }) hq.rows rfl rfl
    fun env row hrow => hq.evalColumns_pick hlist hrow
  have hnames := map_fst_of_forall₂ hlist
  have hcut : ∀ rows : List (Row V), q.cut rows = rows ∧
      Select.cut { q with columns := list, distinct := true } rows = rows.eraseDups := by
    intro rows
    simp only [changesRowSet, Bool.or_eq_false_iff, Option.isSome_eq_false_iff,
      Option.isNone_iff_eq_none] at hchanges
    obtain ⟨⟨hdistinct, hlimit⟩, hoffset⟩ := hchanges
    simp [cut, hdistinct, hlimit, hoffset]
  rw [(hcut raw).1] at hraw
  rw [(hcut raw').2] at hr
  subst hraw
  refine ⟨⟨selection.map Prod.fst, raw'⟩, by simp [Relation.pick, hrows], hnames, ?_, hr⟩
  rw [columnNames, hnames]
  exact hnodup

end Pick

/-- Setting an entry of the select list sets the column in every row. -/
lemma set {name : String} {e : ColumnExpr} {x : Expr} (hq : Computes I db q r)
    (hdistinct : q.distinct = false)
    (hx : ∀ env row, evalColumns I q.columns env = some row →
      ∃ v, e.shape.denote I dialect row = some v ∧ x.eval I env = some v) :
    ∃ r', r.set I dialect (name, e) = some r' ∧
      Computes I db { q with columns := putEntry name x q.columns } r' := by
  have hcolumns : ∀ env row, evalColumns I q.columns env = some row →
      ∃ row', evalColumns I (putEntry name x q.columns) env = some row' ∧
        row.set I dialect (name, e) = some row' := by
    intro env row hrow
    obtain ⟨v, hv, heval⟩ := hx env row hrow
    exact ⟨putEntry name v row, evalColumns_putEntry hrow heval, by simp [Row.set, hv]⟩
  obtain ⟨rows, hrows, hr⟩ := rows_edit_mapM
    (r := { q with columns := putEntry name x q.columns }) hq.rows hdistinct rfl rfl (fun _ => rfl)
    hcolumns
  refine ⟨_, by simp only [Relation.set, hrows]; rfl, ?_, nodup_putEntry hq.nodup, hr⟩
  rw [← hq.names]
  exact keys_putEntry name x q.columns

/-- Relabelling a select list relabels every row. Repeated rows are the same before and after. -/
lemma relabel (hq : Computes I db q r) (f : String → String)
    (hnodup : (q.columnNames.map f).Nodup) :
    Computes I db { q with columns := q.columns.map fun c => (f c.1, c.2) } (r.relabel f) := by
  have hcolumns : ∀ env row, evalColumns I q.columns env = some row →
      ∃ row', evalColumns I (q.columns.map fun c => (f c.1, c.2)) env = some row' ∧
        some (row.relabel f) = some row' := by
    intro env row hrow
    refine ⟨row.relabel f, evalColumns_eq_some.2 ?_, rfl⟩
    rw [Row.relabel, List.forall₂_map_left_iff, List.forall₂_map_right_iff]
    refine (evalColumns_eq_some.1 hrow).imp ?_
    rintro c v ⟨hname, heval⟩
    exact ⟨congrArg f hname, heval⟩
  -- The statement may be distinct, so the rows before the cut have to be compared: all of them are
  -- labelled alike, and relabelling tells no more of them apart than before.
  obtain ⟨raw, raw', hraw, hlabels, hmap, hr⟩ := rows_edit
    (r := { q with columns := q.columns.map fun c => (f c.1, c.2) }) hq.rows rfl rfl hcolumns
  have hsome : raw.mapM (fun row => some (row.relabel f)) = some (raw.map (Row.relabel f)) :=
    mapM_eq_some.2 (List.forall₂_map_right_iff.2 (List.forall₂_same.2 fun _ _ => rfl))
  obtain rfl : raw.map (Row.relabel f) = raw' := by simpa [hsome] using hmap
  have hnames : (q.columns.map fun c => (f c.1, c.2)).map Prod.fst = q.columnNames.map f := by
    simp [columnNames, Function.comp_def]
  refine ⟨?_, ?_, ?_⟩
  · rw [columnNames, hnames, hq.names]
    rfl
  · rw [columnNames, hnames]
    exact hnodup
  · have hcut : q.cut (raw.map (Row.relabel f)) = (q.cut raw).map (Row.relabel f) :=
      cut_map fun a ha b hb hab =>
        Row.relabel_injective ((hlabels a ha).trans (hlabels b hb).symm) hab
    rw [hr, Relation.relabel, hraw, ← hcut]
    rfl

/-- A limit, or a smaller one than before, keeps the first rows. -/
lemma take (hq : Computes I db q r) (n : UInt32) :
    Computes I db { q with limit := some (q.limit.elim n fun m => min m n) } (r.take n.toNat) := by
  obtain ⟨hrow, envs, raw, hmatch, hraw, hout⟩ := rows_eq_some.1 hq.rows
  refine ⟨hq.names, hq.nodup, rows_eq_some.2 ⟨hrow, envs, raw, hmatch, hraw, ?_⟩⟩
  rw [Relation.take, hout]
  unfold cut
  cases hlimit : q.limit with
  | none => simp
  | some m =>
    have hmin : (min m n).toNat = min m.toNat n.toNat := by
      have hdef : min m n = if m ≤ n then m else n := rfl
      rw [hdef]
      split
      · rename_i hle
        exact (Nat.min_eq_left (UInt32.le_iff_toNat_le.1 hle)).symm
      · rename_i hle
        exact (Nat.min_eq_right (Nat.le_of_not_le (mt UInt32.le_iff_toNat_le.2 hle))).symm
    simp [hmin, List.take_take, min_comm]

/-- The columns of a subquery hold what its rows hold, also under another alias. -/
lemma readsRow (hq : Computes I db q r) {row : Row V} (hrow : row ∈ r.rows)
    (subquery windows : TableAlias) (names : List String) :
    ReadsRow I (fun ref => Sql.rowEnv windows row (ref.replaceAlias subquery windows))
      (.ofSubquery q subquery) row names := by
  intro n _ x hx
  obtain ⟨rfl, hn⟩ := Scope.lookup_ofSubquery hx
  rw [← labels_of_rows hq.rows row hrow] at hn
  obtain ⟨v, hv⟩ := exists_lookup hn
  refine ⟨rfl, v, hv, ?_⟩
  simpa [Expr.labelled, Expr.eval, Sql.rowEnv, Sql.ColumnRef.replaceAlias, Sql.ColumnRef.table,
    Sql.ColumnRef.name] using hv

section Restrict

variable {predicates : List ColumnExpr} {subquery : TableAlias} {context : WindowContext}
  {conditions : List Expr} {found : List LabelledWindow}

/-- On each row, the condition of compiled predicates holds if the predicates do. -/
lemma holds_iff_satisfies (hq : Computes I db q r)
    (hwise : ∀ e ∈ predicates, e.isRowWise dialect = true)
    (h : CompileEnv.compileAll ⟨.builtIn dialect, .ofSubquery q subquery, context⟩ .window
      (predicates.map .shape) = .ok (conditions, found)) (windows : TableAlias) {row : Row V}
    (hrow : row ∈ r.rows) :
    ∃ keep, Row.satisfies I dialect predicates row = some keep ∧
      ((Expr.conjunction (conditions.map (Expr.replaceAlias subquery windows))).eval I
        (Sql.rowEnv windows row)).map I.holds = some keep := by
  obtain ⟨_, hall⟩ := eval_compileAll (I := I) rfl (ColumnExpr.isRowWise_map_shape hwise) h
    (fun ref => Sql.rowEnv windows row (ref.replaceAlias subquery windows)) row
  obtain ⟨values, hpredicates, hconditions⟩ := exists_forall₂ <| hall.imp fun e _ hv =>
    hv (hq.readsRow hrow subquery windows e.reads)
  refine ⟨values.all I.holds, ?_, Expr.holds_conjunction I _ ?_⟩
  · have hvalues : predicates.mapM (fun e => e.shape.denote I dialect row) = some values :=
      mapM_eq_some.2 (List.forall₂_map_left_iff.1 hpredicates)
    rw [Row.satisfies, hvalues]
    rfl
  · refine mapM_eq_some.2 (List.forall₂_map_left_iff.2 (hconditions.imp ?_))
    intro e v hv
    exact (Expr.eval_replaceAlias I _ subquery windows e).trans hv

/-- Row-wise predicates on a subquery keep the rows on which all of them hold. -/
lemma restrict (hq : Computes I db q r) (hwise : ∀ e ∈ predicates, e.isRowWise dialect = true)
    (h : CompileEnv.compileAll ⟨.builtIn dialect, .ofSubquery q subquery, context⟩ .window
      (predicates.map .shape) = .ok (conditions, found)) (windows : TableAlias) :
    ∃ r', r.restrict I dialect predicates = some r' ∧
      Computes I db { (q.throughSubquery subquery).throughSubquery windows with
        condition := Expr.conjunction (conditions.map (Expr.replaceAlias subquery windows)) }
        r' := by
  -- Both sides decide about every row, and in the same way.
  let keep : Row V → Bool := fun row => (Row.satisfies I dialect predicates row).getD false
  have hkeep : ∀ row ∈ r.rows, Row.satisfies I dialect predicates row = some (keep row) ∧
      ((Expr.conjunction (conditions.map (Expr.replaceAlias subquery windows))).eval I
        (Sql.rowEnv windows row)).map I.holds = some (keep row) := by
    intro row hrow
    obtain ⟨kept, hsatisfies, hholds⟩ := hq.holds_iff_satisfies hwise h windows hrow
    have hkept : keep row = kept := by simp [keep, hsatisfies]
    exact ⟨hkept ▸ hsatisfies, hkept ▸ hholds⟩
  have hnodup := nodup_throughSubquery hq.nodup subquery
  refine ⟨⟨r.names, r.rows.filter keep⟩, ?_, ?_, nodup_throughSubquery hnodup windows, ?_⟩
  · simp [Relation.restrict, keepWhere_eq_filter fun row hrow => (hkeep row hrow).1]
  · rw [← hq.names, ← columnNames_throughSubquery q subquery]
    exact columnNames_throughSubquery _ windows
  · exact rows_throughSubquery_where (rows_throughSubquery hq.rows hq.nodup subquery) hnodup windows
      _ fun row hrow => (hkeep row hrow).2

end Restrict

/-- All columns of a table. -/
lemma ofTable (functions : FunctionTable) (collection : String) (table : TableInfo) :
    Computes I db (QueryState.ofTable functions collection table).last
      (.ofTable table (db (.stored table.schemaName table.tableName))) := by
  have hnames : (QueryState.ofTable functions collection table).last.columnNames =
      table.columns.keys := by
    simp [QueryState.ofTable, columnNames, OrderedMap.keys, Function.comp_def]
  refine ⟨hnames, hnames ▸ table.columns.nodup, ?_⟩
  refine rows_eq_some.2 ⟨rfl, _, _, matching_of_always rfl rfl, ?_, rfl⟩
  rw [Relation.ofTable, List.forall₂_map_left_iff, List.forall₂_map_right_iff, List.forall₂_same]
  intro stored _
  rw [evalColumns_eq_some, QueryState.ofTable, List.forall₂_map_left_iff,
    List.forall₂_map_right_iff, List.forall₂_same]
  intro c _
  refine ⟨rfl, ?_⟩
  simp [Expr.eval, Sql.tableEnv, Sql.ColumnRef.table, Sql.ColumnRef.name, AliasCounter.make]

end Computes

/-- A query over the built-in functions that groups and orders nothing, whose statement computes a
relation. -/
structure Simulates (I : Interpretation V) (db : TableRef → List (String → V)) (dialect : Dialect)
    (s : QueryState) (r : Relation V) : Prop where
  functions : s.functions = .builtIn dialect
  groups : s.groups.toList = []
  order : s.order = []
  computes : Computes I db s.last r

namespace Simulates

variable {s t : QueryState} {r : Relation V}

lemma columnNames (hs : Simulates I db dialect s r) : s.columnNames = r.names :=
  hs.computes.names

/-- Without a grouping the columns keep their order. -/
lemma orderedColumnNames (hs : Simulates I db dialect s r) :
    s.orderedColumnNames = s.columnNames := by
  have hnodup : (s.groups.toList ++ s.columnNames).Nodup := by
    rw [hs.groups]
    exact hs.computes.nodup
  rw [QueryState.orderedColumnNames, OrderedSet.toList_extend_of_nodup hnodup, hs.groups,
    List.nil_append]

lemma filter (hs : Simulates I db dialect s r) {predicates : List ColumnExpr}
    (hwise : ∀ e ∈ predicates, e.isRowWise dialect = true) (h : s.filter predicates = .ok t) :
    ∃ r', r.restrict I dialect predicates = some r' ∧ Simulates I db dialect t r' := by
  rcases QueryState.filter_cases h with ⟨rfl, rfl⟩ |
    ⟨subquery, windows, scope, context, conditions, found, inner, list, _, _, rfl, _, hall, rfl,
      hlist, rfl⟩
  · have hkeep : ∀ row ∈ r.rows, Row.satisfies I dialect [] row = some true := fun _ _ => rfl
    refine ⟨r, ?_, hs⟩
    simp only [Relation.restrict, keepWhere_eq_filter hkeep, List.filter_true]
    rfl
  · rw [hs.functions] at hall
    obtain ⟨r', hr', hcomputes⟩ := hs.computes.restrict hwise hall windows
    obtain ⟨rfl, _⟩ := eval_compileAll (I := I) rfl (ColumnExpr.isRowWise_map_shape hwise) hall
      (fun _ => none) []
    -- No window was found, so the two stages take all columns of what they read.
    have hinner : Select.reading ((Scope.ofSubquery s.last subquery).selectList ++ [])
        s.last subquery = s.last.throughSubquery subquery := by
      have hentries := OrderedMap.entries_ofList_of_nodup
        (nodup_throughSubquery hs.computes.nodup subquery)
      rw [List.append_nil]
      exact congrArg (Select.reading · s.last subquery) hentries
    rw [List.map_nil, hinner] at hlist ⊢
    have hcolumns : list = ((s.last.throughSubquery subquery).throughSubquery windows).columns := by
      rw [columns_throughSubquery, columnNames_throughSubquery, Scope.project_ofSubquery hlist,
        hs.orderedColumnNames]
      rfl
    subst hcolumns
    exact ⟨r', hr', hs.functions, hs.groups, hs.order, hcomputes⟩

/-- One column of `mutate`: what it reads stands for columns by then, so it sees the row. -/
lemma addColumn (hs : s.functions = .builtIn dialect) {name : String} {e : ColumnExpr}
    (hwise : e.isRowWise dialect = true) {q q' : Select} {aliases aliases' : AliasCounter}
    (hq : Computes I db q r) (h : s.addColumn name e.shape q aliases = .ok (q', aliases')) :
    ∃ r', r.set I dialect (name, e) = some r' ∧ Computes I db q' r' := by
  obtain ⟨base, windows, x, hwrap, _, hx, rfl⟩ := QueryState.addColumn_cases h
  have hbase := hq.wrapIf hwrap
  have hdistinct : base.distinct = false := QueryState.distinct_of_wrapIf hwrap fun hneeded => by
    simp only [Bool.or_eq_false_iff, changesRowSet] at hneeded
    exact hneeded.1.1.1.1
  refine hbase.set hdistinct ?_
  intro env row hrow
  rw [QueryState.compileIn, hs] at hx
  refine eval_compileExpr rfl (ColumnExpr.isRowWise_shape hwise) ?_ hx
  -- A name that the statement computed itself would have made it a subquery.
  intro n hn y hy
  refine ⟨?_, lookup_of_evalColumns hrow (hbase.lookup hy)⟩
  refine QueryState.isColumn_of_wrapIf hwrap ?_ (List.mem_append_left s.windowColumns.toList hn) hy
  intro hneeded
  exact (Bool.or_eq_false_iff.1 hneeded).2

lemma addColumns (hs : s.functions = .builtIn dialect) {columns : List (String × ColumnExpr)}
    (hwise : ∀ c ∈ columns, c.2.isRowWise dialect = true) {q q' : Select}
    {aliases aliases' : AliasCounter} (hq : Computes I db q r)
    (h : s.addColumns columns q aliases = .ok (q', aliases')) :
    ∃ r', r.setAll I dialect columns = some r' ∧ Computes I db q' r' := by
  induction columns generalizing q aliases r with
  | nil =>
    cases h
    exact ⟨r, rfl, hq⟩
  | cons c rest ih =>
    obtain ⟨name, e⟩ := c
    simp only [QueryState.addColumns, bind_eq_ok] at h
    obtain ⟨⟨q₁, aliases₁⟩, hadd, hrest⟩ := h
    obtain ⟨r₁, hset, hq₁⟩ := addColumn hs (hwise _ List.mem_cons_self) hq hadd
    obtain ⟨r', hsetAll, hq'⟩ := ih (fun c hc => hwise c (List.mem_cons_of_mem _ hc)) hq₁ hrest
    refine ⟨r', ?_, hq'⟩
    rw [Relation.setAll, List.foldlM_cons, hset]
    exact hsetAll

lemma mutate (hs : Simulates I db dialect s r) {columns : List (String × ColumnExpr)}
    (hwise : ∀ c ∈ columns, c.2.isRowWise dialect = true) (h : s.mutate columns = .ok t) :
    ∃ r', r.setAll I dialect columns = some r' ∧ Simulates I db dialect t r' := by
  rcases QueryState.mutate_cases h with ⟨rfl, rfl⟩ | ⟨q, aliases, hadd, rfl⟩
  · exact ⟨r, rfl, hs⟩
  · obtain ⟨r', hr', hq⟩ := addColumns hs.functions hwise hs.computes hadd
    exact ⟨r', hr', hs.functions, hs.groups, hs.order, hq⟩

lemma select (hs : Simulates I db dialect s r) {columns : List ColumnExpr}
    (h : s.select columns = .ok t) :
    ∃ selectors r', columns.mapM (fun e => Selector.parse r.names e.shape) = .ok selectors ∧
      r.pick (Selector.selection r.names selectors).entries = some r' ∧
      Simulates I db dialect t r' := by
  obtain ⟨selectors, chosen, selection, base, aliases, list, hparse, rfl, rfl, _, hwrap, hlist,
    rfl⟩ := QueryState.select_cases h
  rw [hs.columnNames] at hparse hlist
  have hentries : (withGroups (Selector.selection r.names selectors) s.groups.toList).entries =
      (Selector.selection r.names selectors).entries := by
    rw [hs.groups]
    exact OrderedMap.entries_extend_of_nodup (Selector.selection r.names selectors).nodup
  rw [hentries] at hlist
  have hdistinct : base.distinct = false := QueryState.distinct_of_wrapIf hwrap id
  obtain ⟨r', hr', hq⟩ := (hs.computes.wrapIf hwrap).pick hlist hdistinct
    (Selector.selection r.names selectors).nodup
  refine ⟨selectors, r', hparse, hr', hs.functions, ?_, ?_, hq⟩
  · simp [QueryState.pushWith, hs.groups, OrderedSet.ofList, OrderedSet.extend]
  · simp [QueryState.pushWith, hs.order, renameOrder]

lemma rename (hs : Simulates I db dialect s r) {columns : List (String × ColumnExpr)}
    (h : s.rename columns = .ok t) :
    ∃ renames, QueryState.parseRenames r.names columns = .ok renames ∧
      Simulates I db dialect t (r.relabel (newName renames)) := by
  obtain ⟨renames, list, hparse, rfl, hrepeated, rfl⟩ := QueryState.rename_cases h
  rw [hs.columnNames] at hparse
  refine ⟨renames, hparse, hs.functions, ?_, ?_, ?_⟩
  · simp [QueryState.pushWith, hs.groups, OrderedSet.ofList, OrderedSet.extend]
  · simp [QueryState.pushWith, hs.order, renameOrder]
  · refine hs.computes.relabel (newName renames) ?_
    have hnodup := (QueryState.nodup_of_firstRepeated hrepeated).1
    rw [List.map_map] at hnodup
    rw [Select.columnNames, List.map_map]
    exact hnodup

/-- Removing repeated rows, once the statement leaves all its rows. -/
lemma unique (hs : Simulates I db dialect s r) {names : OrderedSet} {inner : Select}
    {aliases : AliasCounter} {list : List (String × Expr)}
    (hwrap : QueryState.wrapIf (s.last.changesRowSet || !s.last.orderBy.isEmpty) s.last s.aliases =
      (inner, aliases))
    (hlist : (Scope.ofSelectList inner).project names.toList = .ok list) :
    ∃ r', r.pick (names.toList.map fun n => (n, n)) = some r' ∧
      Computes I db { inner with columns := list, distinct := true } r'.unique := by
  have hchanges : inner.changesRowSet = false :=
    QueryState.changesRowSet_of_wrapIf hwrap fun hneeded => (Bool.or_eq_false_iff.1 hneeded).1
  obtain ⟨hnames, hlookup⟩ := Scope.project_eq_ok.1 hlist
  refine (hs.computes.wrapIf hwrap).pick_unique ?_ hchanges ?_
  · rw [← hnames, List.map_map, List.forall₂_map_left_iff, List.forall₂_same]
    exact fun c hc => ⟨rfl, hlookup c hc⟩
  · simpa [Function.comp_def] using names.nodup

lemma distinct (hs : Simulates I db dialect s r) {columns : List ColumnExpr}
    {computed : List (String × ColumnExpr)} {keepAll : Bool}
    (hwise : ∀ c ∈ computed, c.2.isRowWise dialect = true)
    (h : s.distinct columns computed keepAll = .ok t) :
    ∃ given r₁ r₂ named, columns.mapM (fun e => e.shape.simpleName?) = some given ∧
      r.setAll I dialect computed = some r₁ ∧
      named = (OrderedSet.ofList (given ++ computed.map Prod.fst)).toList ∧
      r₁.pick ((if named.isEmpty then r₁.names else named).map fun n => (n, n)) = some r₂ ∧
      Simulates I db dialect t r₂.unique := by
  obtain ⟨given, base, names, inner, aliases, list, hgiven, hbase, hnames, hwrap, hlist, rfl⟩ :=
    QueryState.distinct_cases h
  obtain ⟨r₁, hr₁, hs₁⟩ := hs.mutate hwise hbase
  obtain ⟨r₂, hr₂, hq⟩ := hs₁.unique hwrap hlist
  have hextend : (OrderedSet.ofList given).extend (computed.map Prod.fst) =
      .ofList (given ++ computed.map Prod.fst) := List.foldl_append.symm
  have htoList : names.toList =
      if (OrderedSet.ofList (given ++ computed.map Prod.fst)).toList.isEmpty then r₁.names
      else (OrderedSet.ofList (given ++ computed.map Prod.fst)).toList := by
    rw [hnames, hextend, OrderedSet.isEmpty, apply_ite OrderedSet.toList, ← hs₁.columnNames]
    have hall : (OrderedSet.ofList base.columnNames).toList = base.columnNames :=
      OrderedSet.toList_extend_of_nodup (s := .empty) hs₁.computes.nodup
    rw [hall]
  refine ⟨given, r₁, r₂, _, QueryState.distinctNames_eq_ok hgiven, hr₁, rfl, htoList ▸ hr₂, hs₁.functions, ?_,
    rfl, hq⟩
  simp [QueryState.pushWith, OrderedSet.filter, hs₁.groups]

lemma head (hs : Simulates I db dialect s r) (n : UInt32) :
    Simulates I db dialect (s.head n) (r.take n.toNat) := by
  refine ⟨hs.functions, hs.groups, hs.order, ?_⟩
  have hlimit : (s.head n).last =
      { s.last with limit := some (s.last.limit.elim n fun m => min m n) } := by
    unfold QueryState.head
    cases s.last.limit with
    | none => rfl
    | some m => rfl
  rw [hlimit]
  exact hs.computes.take n

/-- A row-wise verb does to the rows of the statement what it means. -/
lemma run (hs : Simulates I db dialect s r) {catalog : Catalog} {v : Verb}
    (hwise : v.isRowWise dialect = true) (h : v.run catalog (.builtIn dialect) s = .ok t) :
    ∃ r', v.meaning I dialect r = some r' ∧ Simulates I db dialect t r' := by
  cases v with
  | select columns =>
    obtain ⟨selectors, r', hparse, hr', ht⟩ := hs.select h
    exact ⟨r', by simp [Verb.meaning, hparse, hr', Except.toOption], ht⟩
  | rename columns =>
    obtain ⟨renames, hparse, ht⟩ := hs.rename h
    exact ⟨_, by simp [Verb.meaning, hparse, Except.toOption], ht⟩
  | filter predicates => exact hs.filter (List.all_eq_true.1 hwise) h
  | mutate columns =>
    refine hs.mutate ?_ h
    intro c hc
    exact List.all_eq_true.1 hwise c.2 (List.mem_map_of_mem hc)
  | distinct columns computed keepAll =>
    have hcomputed : ∀ c ∈ computed.entries, c.2.isRowWise dialect = true := fun c hc =>
      List.all_eq_true.1 hwise c.2 (List.mem_map_of_mem hc)
    obtain ⟨given, r₁, r₂, named, hgiven, hr₁, rfl, hr₂, ht⟩ := hs.distinct hcomputed h
    refine ⟨r₂.unique, ?_, ht⟩
    simp only [Verb.meaning, hgiven, hr₁, OrderedMap.keys, Option.bind_eq_bind, Option.bind_some,
      Option.pure_def]
    exact congrArg (Option.bind · fun r => some r.unique) hr₂
  | head n =>
    cases h
    exact ⟨_, rfl, hs.head n⟩
  | arrange _ | summarize _ | count _ _ _ | groupBy _ _ | ungroup | join _ _ _ =>
    simp [Verb.isRowWise] at hwise

lemma runPipeline {catalog : Catalog} {verbs : List Verb} (hs : Simulates I db dialect s r)
    (hwise : ∀ v ∈ verbs, v.isRowWise dialect = true)
    (h : PipelineSql.runPipeline catalog (.builtIn dialect) s verbs = .ok t) :
    ∃ r', pipelineMeaning I dialect r verbs = some r' ∧ Simulates I db dialect t r' := by
  induction verbs generalizing s r with
  | nil =>
    simp only [PipelineSql.runPipeline, Except.ok.injEq] at h
    exact ⟨r, rfl, h ▸ hs⟩
  | cons v verbs ih =>
    simp only [PipelineSql.runPipeline, bind_eq_ok] at h
    obtain ⟨u, hu, ht⟩ := h
    obtain ⟨r₁, hr₁, hs₁⟩ := hs.run (hwise v List.mem_cons_self) hu
    obtain ⟨r', hr', hs'⟩ := ih hs₁ (fun w hw => hwise w (List.mem_cons_of_mem _ hw)) ht
    refine ⟨r', ?_, hs'⟩
    rw [pipelineMeaning, List.foldlM_cons, hr₁]
    exact hr'

end Simulates

/-- A row-wise pipeline over a table computes, on every contents of the table, what its verbs do to
rows one after another, under the column names that they give. -/
theorem row_wise_pipeline_keeps_meaning (I : Interpretation V) (db : TableRef → List (String → V))
    {dialect : Dialect} {catalog : Catalog} {collection : String} {table : TableInfo}
    {verbs : List Verb} {s : QueryState} (hwise : ∀ v ∈ verbs, v.isRowWise dialect = true)
    (h : runPipeline catalog (.builtIn dialect)
      (.ofTable (.builtIn dialect) collection table) verbs = .ok s) :
    ∃ rows, pipelineMeaning I dialect
        (.ofTable table (db (.stored table.schemaName table.tableName))) verbs =
          some ⟨s.columnNames, rows⟩ ∧
      s.last.rows I db = some rows := by
  have hstart : Simulates I db dialect (.ofTable (.builtIn dialect) collection table)
      (.ofTable table (db (.stored table.schemaName table.tableName))) :=
    ⟨rfl, rfl, rfl, .ofTable _ _ _⟩
  obtain ⟨r, hr, hs⟩ := hstart.runPipeline hwise h
  refine ⟨r.rows, ?_, hs.computes.rows⟩
  rw [hr, hs.columnNames]

/-- Integers, of which all but zero hold. -/
def integers : Interpretation Int where
  literal
    | .int i => i.toInt
    | .bool true => 1
    | _ => 0
  and a b := if a ≠ 0 ∧ b ≠ 0 then 1 else 0
  or a b := if a ≠ 0 ∨ b ≠ 0 then 1 else 0
  not a := if a = 0 then 1 else 0
  binary
    | "+", a, b => a + b
    | "*", a, b => a * b
    | ">", a, b => if a > b then 1 else 0
    | _, _, _ => 0
  isIn a l := if a ∈ l then 1 else 0
  isNull _ := 0
  isNotNull _ := 1
  negate a := -a
  call _ _ := 0
  case whens otherwise := ((whens.find? fun w => w.1 ≠ 0).map Prod.snd).getD (otherwise.getD 0)
  cast _ a := a
  holds a := a ≠ 0
  holds_and a b := by
    by_cases ha : a = 0
    · simp [ha]
    · by_cases hb : b = 0
      · simp [ha, hb]
      · simp [ha, hb]
  holds_always := rfl

/-- Four people, two of them in each of two groups. -/
def somePeople : List (String → Int) :=
  [(1, 3), (1, 3), (2, 5), (2, 1)].map fun p column => if column = "g" then p.1 else p.2

/-- Every verb that works row by row, with a column that is computed from another. -/
def rowWiseVerbs : List Verb :=
  [.mutate (.ofList [("y", .call .multiply [.column "x", .literal (.int 2)] []),
      ("z", .call .add [.column "y", .column "g"] [])]),
    .filter [.call .greaterThan [.column "z", .literal (.int 3)] []],
    .distinct [.column "g"] (.ofList [("w", .call .add [.column "z", .column "y"] [])]) false,
    .rename (.ofList [("x", .column "w")]),
    .select [.column "x", .call .equal [.column "y", .column "g"] []],
    .head 2]

theorem rowWiseVerbs_keep_meaning : ∃ s, runPipeline peopleCatalog (.builtIn .postgres)
    (people .postgres) rowWiseVerbs = .ok s ∧
      s.last.rows integers (fun _ => somePeople) =
        some [[("x", 13), ("y", 1)], [("x", 22), ("y", 2)]] := by
  have hok : (runPipeline peopleCatalog (.builtIn .postgres) (people .postgres)
      rowWiseVerbs).isOk = true := by decide +kernel
  obtain ⟨s, hs⟩ := exists_eq_ok hok
  obtain ⟨rows, hmeaning, hrows⟩ := row_wise_pipeline_keeps_meaning integers
    (fun _ => somePeople) (by decide +kernel) hs
  have hlist : (pipelineMeaning integers .postgres (.ofTable peopleTable somePeople)
      rowWiseVerbs).map Relation.rows = some [[("x", 13), ("y", 1)], [("x", 22), ("y", 2)]] := by
    decide +kernel
  refine ⟨s, hs, hrows.trans ?_⟩
  rw [hmeaning] at hlist
  exact hlist

end PipelineSql
