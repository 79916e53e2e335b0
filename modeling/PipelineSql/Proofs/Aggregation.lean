import PipelineSql.Proofs.Reachability
import PipelineSql.Proofs.Windows

/-!
# Queries that aggregate

A query that aggregates has one row for each of its groups, or a single row when it has none. A
later verb keeps these rows when it reads the query through a subquery, or when it reuses the query
with its groups. A query without groups shows that it aggregates in its select list alone.
-/

namespace PipelineSql

open Sql (Expr Select AliasCounter TableAlias)

namespace Sql

mutual

/-- Whether an aggregate is called outside window functions. -/
def Expr.aggregates : Expr → Bool
  | .and l r => l.aggregates || r.aggregates
  | .or l r => l.aggregates || r.aggregates
  | .not e => e.aggregates
  | .binary l _ r => l.aggregates || r.aggregates
  | .isIn e es => e.aggregates || aggregatesInList es
  | .isNull e => e.aggregates
  | .isNotNull e => e.aggregates
  | .negate e => e.aggregates
  | .call f args => decide (f ∈ aggregateNames) || aggregatesInList args
  | .case whens otherwise => aggregatesInWhens whens || aggregatesInOption otherwise
  | .window _ _ => false
  | .column _ => false
  | .value _ => false
  | .cast e _ => e.aggregates
  | .countAll => true
  | .count _ => true
  | .countDistinct _ => true

def aggregatesInList : List Expr → Bool
  | [] => false
  | e :: es => e.aggregates || aggregatesInList es

def aggregatesInWhens : List (Expr × Expr) → Bool
  | [] => false
  | (c, e) :: rest => c.aggregates || e.aggregates || aggregatesInWhens rest

def aggregatesInOption : Option Expr → Bool
  | none => false
  | some e => e.aggregates

end

namespace Select

/-- Whether a query groups its rows, or makes one row of them all. -/
def aggregates (q : Select) : Bool := !q.groupBy.isEmpty || q.columns.any fun c => c.2.aggregates

/-- A query with the rows of another one, and its groups. -/
structure SharesRows (q p : Select) : Prop where
  source : p.source = q.source
  joins : p.joins = q.joins
  condition : p.condition = q.condition
  groupBy : p.groupBy = q.groupBy

/-- A query that reuses another one and still has a row for each of its groups. -/
structure KeepsGroups (q p : Select) : Prop extends SharesRows q p where
  aggregates : q.groupBy = [] → ∃ c ∈ p.columns, c.2.aggregates = true

/-- A query reads another one through subqueries, or one that reuses it and keeps its groups. -/
inductive ReadsThrough (q : Select) : Select → Prop where
  | direct {p r : Select} {a : TableAlias} :
      r.source = some (.subquery p a) → KeepsGroups q p → ReadsThrough q r
  | further {p r : Select} {a : TableAlias} :
      r.source = some (.subquery p a) → ReadsThrough q p → ReadsThrough q r

/-- What a later query leaves of one that aggregates: it reads its rows, or keeps its groups. -/
def Preserves (q r : Select) : Prop := ReadsThrough q r ∨ KeepsGroups q r

/-- A column of a query is an aggregate. -/
def AggregateColumn (q : Select) (n : String) : Prop :=
  ∃ x, (Scope.ofSelectList q).lookup n = .ok x ∧ x.aggregates = true

variable {q p r : Select}

lemma SharesRows.refl (q : Select) : SharesRows q q := ⟨rfl, rfl, rfl, rfl⟩

lemma KeepsGroups.refl (hq : q.aggregates = true) : KeepsGroups q q where
  toSharesRows := .refl q
  aggregates := by
    intro hgroup
    simpa [Select.aggregates, hgroup] using hq

lemma SharesRows.keepsGroups (h : SharesRows q p) {n : String} {x : Expr}
    (hx : (Scope.ofSelectList p).lookup n = .ok x) (hagg : x.aggregates = true) :
    KeepsGroups q p :=
  ⟨h, fun _ => ⟨(n, x), Scope.mem_of_lookup_ofSelectList hx, hagg⟩⟩

lemma ReadsThrough.edit (h : ReadsThrough q p) (hsource : r.source = p.source) :
    ReadsThrough q r := by
  cases h with
  | direct hp hkeep => exact .direct (hsource.trans hp) hkeep
  | further hp hread => exact .further (hsource.trans hp) hread

lemma ReadsThrough.wrap {a : TableAlias} (h : Preserves q p)
    (hsource : r.source = some (.subquery p a)) : ReadsThrough q r := by
  rcases h with hread | hkeep
  · exact .further hsource hread
  · exact .direct hsource hkeep

lemma sizeOf_source_lt {a : TableAlias} (h : r.source = some (.subquery p a)) :
    sizeOf p.source < sizeOf r.source := by
  rw [h]
  cases p
  simp only [Option.some.sizeOf_spec, Source.subquery.sizeOf_spec, Select.mk.sizeOf_spec]
  omega

lemma ReadsThrough.sizeOf_lt (h : ReadsThrough q r) : sizeOf q.source < sizeOf r.source := by
  induction h with
  | direct hsource hkeep =>
    rw [← hkeep.source]
    exact sizeOf_source_lt hsource
  | further hsource _ ih => exact ih.trans (sizeOf_source_lt hsource)

/-- A query that reuses the source of another one does not read that through a subquery. -/
lemma not_readsThrough (h : r.source = q.source) : ¬ReadsThrough q r := by
  intro hread
  have hlt := hread.sizeOf_lt
  rw [h] at hlt
  exact lt_irrefl _ hlt

/-- Whether a query reads a table of the database. -/
def readsTable (q : Select) : Bool :=
  match q.source with
  | some (.table _ _) => true
  | _ => false

lemma not_readsThrough_of_readsTable (h : r.readsTable = true) : ¬ReadsThrough q r := by
  intro hread
  cases hread with
  | direct hsource _ => simp [readsTable, hsource] at h
  | further hsource _ => simp [readsTable, hsource] at h

end Select

end Sql

open Sql.Select

namespace QueryState

variable {s t : QueryState} {S : Select}

lemma wrapIf_source {needed : Bool} {q base : Select} {aliases aliases' : AliasCounter}
    (h : wrapIf needed q aliases = (base, aliases')) :
    (needed = false ∧ base = q) ∨
      (needed = true ∧ ∃ a, base.source = some (.subquery q a)) := by
  cases needed with
  | false =>
    cases h
    exact Or.inl ⟨rfl, rfl⟩
  | true =>
    cases h
    exact Or.inr ⟨rfl, _, rfl⟩

lemma readsDerived_eq_true {q : Select} {names : List String} :
    readsDerived q names = true ↔ ∃ n ∈ names, n ∈ q.derivedColumns := by
  simp [readsDerived]

section Added

variable {name n : String} {e : ColumnExpr} {q q' : Select} {aliases aliases' : AliasCounter}
  {columns : List (String × ColumnExpr)} {x : Expr}

lemma readsThrough_addColumn (h : s.addColumn name e q aliases = .ok (q', aliases'))
    (hq : ReadsThrough S q) : ReadsThrough S q' := by
  obtain ⟨base, _, _, hwrap, _, _, rfl⟩ := addColumn_cases h
  rcases wrapIf_source hwrap with ⟨_, rfl⟩ | ⟨_, a, hsource⟩
  · exact hq.edit rfl
  · exact .further hsource hq

lemma readsThrough_addColumns (h : s.addColumns columns q aliases = .ok (q', aliases'))
    (hq : ReadsThrough S q) : ReadsThrough S q' := by
  refine addColumns_induction (motive := fun p _ => ReadsThrough S p) ?_ hq h
  intro name e p _ p' _ hp hadd
  exact readsThrough_addColumn hadd hp

lemma source_addColumn_of_needed (h : s.addColumn name e q aliases = .ok (q', aliases'))
    (hneeded : q.groupBy ≠ [] ∨ q.changesRowSet = true) :
    ∃ a, q'.source = some (.subquery q a) := by
  obtain ⟨base, _, _, hwrap, _, _, rfl⟩ := addColumn_cases h
  rcases wrapIf_source hwrap with ⟨hfalse, _⟩ | ⟨_, hsource⟩
  · exfalso
    rcases hneeded with hgroup | hchanges
    · simp [hgroup] at hfalse
    · simp [hchanges] at hfalse
  · exact hsource

/-- An aggregate that added columns do not replace stays in the query, or below it. -/
lemma aggregate_addColumns (hx : x.aggregates = true) (hn : n ∉ columns.map Prod.fst)
    (hq : ReadsThrough S q ∨
      (SharesRows S q ∧ (Scope.ofSelectList q).lookup n = .ok x))
    (h : s.addColumns columns q aliases = .ok (q', aliases')) :
    ReadsThrough S q' ∨ (SharesRows S q' ∧ (Scope.ofSelectList q').lookup n = .ok x) := by
  induction columns generalizing q aliases with
  | nil =>
    cases h
    exact hq
  | cons c rest ih =>
    obtain ⟨name, e⟩ := c
    simp only [List.map_cons, List.mem_cons, not_or] at hn
    simp only [addColumns, bind_eq_ok] at h
    obtain ⟨⟨q₁, aliases₁⟩, hadd, hrest⟩ := h
    refine ih hn.2 ?_ hrest
    rcases hq with hread | ⟨hrows, hlookup⟩
    · exact Or.inl (readsThrough_addColumn hadd hread)
    obtain ⟨base, _, y, hwrap, _, _, rfl⟩ := addColumn_cases hadd
    rcases wrapIf_source hwrap with ⟨_, rfl⟩ | ⟨_, a, hsource⟩
    · refine Or.inr ⟨⟨hrows.source, hrows.joins, hrows.condition, hrows.groupBy⟩, ?_⟩
      rw [Scope.lookup_eq_ok] at hlookup ⊢
      exact (OrderedMap.get?_extend_putEntry hn.1).trans hlookup
    · exact Or.inl (.direct hsource (hrows.keepsGroups hlookup hx))

end Added

section Mutated

variable {columns : List (String × ColumnExpr)}

/-- Added columns read a query that groups, or that decides how many rows there are. -/
lemma readsThrough_mutate (hagg : s.last.aggregates = true)
    (hneeded : s.last.groupBy ≠ [] ∨ s.last.changesRowSet = true) (h : s.mutate columns = .ok t) :
    t = s ∨ ReadsThrough s.last t.last := by
  cases columns with
  | nil =>
    cases h
    exact Or.inl rfl
  | cons c rest =>
    rcases mutate_cases h with ⟨hnil, _⟩ | ⟨q, aliases, hadd, rfl⟩
    · cases hnil
    · obtain ⟨name, e⟩ := c
      simp only [addColumns, bind_eq_ok] at hadd
      obtain ⟨⟨q₁, aliases₁⟩, hfirst, hrest⟩ := hadd
      obtain ⟨a, hsource⟩ := source_addColumn_of_needed hfirst hneeded
      exact Or.inr (readsThrough_addColumns hrest (.direct hsource (.refl hagg)))

lemma aggregate_mutate {n : String} {x : Expr} (hx : x.aggregates = true)
    (hlookup : (Scope.ofSelectList s.last).lookup n = .ok x) (hn : n ∉ columns.map Prod.fst)
    (h : s.mutate columns = .ok t) : ReadsThrough s.last t.last ∨
      (SharesRows s.last t.last ∧ (Scope.ofSelectList t.last).lookup n = .ok x) := by
  have hstart : ReadsThrough s.last s.last ∨
      (SharesRows s.last s.last ∧ (Scope.ofSelectList s.last).lookup n = .ok x) :=
    Or.inr ⟨.refl _, hlookup⟩
  rcases mutate_cases h with ⟨_, rfl⟩ | ⟨q, aliases, hadd, rfl⟩
  · exact hstart
  · exact aggregate_addColumns hx hn hstart hadd

lemma preserved_mutate (hagg : s.last.aggregates = true) (h : s.mutate columns = .ok t)
    (hkeep : s.last.groupBy ≠ [] ∨ s.last.changesRowSet = true ∨
      ∃ n, s.last.AggregateColumn n ∧ n ∉ columns.map Prod.fst) :
    Preserves s.last t.last := by
  rw [← or_assoc] at hkeep
  rcases hkeep with hneeded | ⟨n, ⟨x, hlookup, hx⟩, hn⟩
  · rcases readsThrough_mutate hagg hneeded h with rfl | hread
    · exact Or.inr (.refl hagg)
    · exact Or.inl hread
  · rcases aggregate_mutate hx hlookup hn h with hread | ⟨hrows, hlookup'⟩
    · exact Or.inl hread
    · exact Or.inr (hrows.keepsGroups hlookup' hx)

end Mutated

lemma preserved_distinct {columns : List ColumnExpr} {computed : List (String × ColumnExpr)}
    {keepAll : Bool} (hagg : s.last.aggregates = true)
    (h : s.distinct columns computed keepAll = .ok t)
    (hkeep : s.last.groupBy ≠ [] ∨ s.last.changesRowSet = true ∨
      ∃ n ∈ t.columnNames, s.last.AggregateColumn n ∧ n ∉ computed.map Prod.fst) :
    Preserves s.last t.last := by
  obtain ⟨_, base, names, inner, _, list, _, hbase, _, hwrap, hlist, rfl⟩ := distinct_cases h
  obtain ⟨hfst, hcolumns⟩ := Scope.project_eq_ok.1 hlist
  have hpreserved : Preserves s.last base.last := by
    refine preserved_mutate hagg hbase ?_
    rcases hkeep with hgroup | hchanges | ⟨n, _, hn⟩
    · exact Or.inl hgroup
    · exact Or.inr (Or.inl hchanges)
    · exact Or.inr (Or.inr ⟨n, hn⟩)
  rcases wrapIf_source hwrap with ⟨hfalse, rfl⟩ | ⟨_, a, hsource⟩
  · -- In place, a query without groups is kept by the aggregate among the distinct columns.
    rw [← or_assoc] at hkeep
    rcases hkeep with hneeded | ⟨n, hmem, ⟨x, hlookup, hx⟩, hn⟩
    · rcases readsThrough_mutate hagg hneeded hbase with rfl | hread
      · refine Or.inr ⟨⟨rfl, rfl, rfl, rfl⟩, ?_⟩
        intro hnil
        rcases hneeded with hgroup | hchanges
        · exact absurd hnil hgroup
        · simp [hchanges] at hfalse
      · exact Or.inl (hread.edit rfl)
    · rcases aggregate_mutate hx hlookup hn hbase with hread | ⟨hrows, hlookup'⟩
      · exact Or.inl (hread.edit rfl)
      · refine Or.inr ⟨⟨hrows.source, hrows.joins, hrows.condition, hrows.groupBy⟩, fun _ => ?_⟩
        obtain ⟨c, hc, rfl⟩ := List.mem_map.1 hmem
        have hsame := (hcolumns c hc).symm.trans hlookup'
        cases hsame
        exact ⟨c, hc, hx⟩
  · exact Or.inl (.wrap hpreserved hsource)

/-- A summary reads an aggregating query through a subquery exactly when the query groups, decides
how many rows there are, or computes a column that is read. -/
lemma readsThrough_summarize_iff {columns : List (String × ColumnExpr)}
    (hagg : s.last.aggregates = true) (h : s.summarize columns = .ok t) :
    ReadsThrough s.last t.last ↔ s.last.groupBy ≠ [] ∨ s.last.changesRowSet = true ∨
      ∃ n ∈ columns.flatMap (fun c => c.2.shape.reads) ++ s.groups.toList,
        n ∈ s.last.derivedColumns := by
  obtain ⟨_, base, _, groups, aggregates, _, rfl, _, hwrap, _, _, rfl⟩ := summarize_cases h
  have hneeded : (!s.last.groupBy.isEmpty || s.last.changesRowSet ||
      readsDerived s.last ((columns.map fun c => (c.1, c.2.shape)).flatMap (fun c => c.2.reads) ++
        s.groups.toList)) = true ↔ s.last.groupBy ≠ [] ∨ s.last.changesRowSet = true ∨
      ∃ n ∈ columns.flatMap (fun c => c.2.shape.reads) ++ s.groups.toList,
        n ∈ s.last.derivedColumns := by
    simp only [Bool.or_eq_true, readsDerived_eq_true, List.flatMap_map, or_assoc, Bool.not_eq_true',
      List.isEmpty_eq_false_iff]
  rw [← hneeded]
  rcases wrapIf_source hwrap with ⟨hfalse, rfl⟩ | ⟨htrue, a, hsource⟩
  · rw [hfalse]
    exact ⟨fun hread => absurd hread (not_readsThrough rfl), fun hcontra => by cases hcontra⟩
  · exact ⟨fun _ => htrue, fun _ => .direct hsource (.refl hagg)⟩

lemma preserved_select_iff {columns : List ColumnExpr} (hagg : s.last.aggregates = true)
    (h : s.select columns = .ok t) :
    Preserves s.last t.last ↔ s.last.groupBy ≠ [] ∨ s.last.distinct = true ∨
      ∃ c ∈ t.last.columns, c.2.aggregates = true := by
  obtain ⟨_, _, _, base, _, list, _, _, _, _, hwrap, _, rfl⟩ := select_cases h
  rcases wrapIf_source hwrap with ⟨hfalse, rfl⟩ | ⟨htrue, a, hsource⟩
  · have hrows : SharesRows s.last { s.last with columns := list } := ⟨rfl, rfl, rfl, rfl⟩
    constructor
    · rintro (hread | hkeep)
      · exact absurd hread (not_readsThrough rfl)
      · by_cases hgroup : s.last.groupBy = []
        · exact Or.inr (Or.inr (hkeep.aggregates hgroup))
        · exact Or.inl hgroup
    · rintro (hgroup | hdistinct | hselected)
      · exact Or.inr ⟨hrows, fun hnil => absurd hnil hgroup⟩
      · rw [hfalse] at hdistinct
        cases hdistinct
      · exact Or.inr ⟨hrows, fun _ => hselected⟩
  · exact ⟨fun _ => Or.inr (Or.inl htrue), fun _ => Or.inl (.direct hsource (.refl hagg))⟩

end QueryState

open QueryState

/-- What later verbs do to a query that aggregates. One with groups is kept by all of them. Without
groups there is nothing but its select list to show that it makes one row: a summary takes the row,
and not the rows beneath it, exactly when the query is limited or distinct or a column that it
computes is read, and the other verbs keep the row when they keep an aggregate. -/
theorem aggregating_query_kept {s : QueryState} (hagg : s.last.aggregates = true) :
    (∀ columns t, s.summarize columns = .ok t →
      (ReadsThrough s.last t.last ↔ s.last.groupBy ≠ [] ∨ s.last.changesRowSet = true ∨
        ∃ n ∈ columns.flatMap (fun c => c.2.shape.reads) ++ s.groups.toList,
          n ∈ s.last.derivedColumns)) ∧
    (∀ columns t, s.select columns = .ok t →
      (Preserves s.last t.last ↔ s.last.groupBy ≠ [] ∨ s.last.distinct = true ∨
        ∃ c ∈ t.last.columns, c.2.aggregates = true)) ∧
    (∀ columns t, s.mutate columns = .ok t →
      (s.last.groupBy ≠ [] ∨ s.last.changesRowSet = true ∨
        ∃ n, s.last.AggregateColumn n ∧ n ∉ columns.map Prod.fst) →
      Preserves s.last t.last) ∧
    ∀ columns computed keepAll t, s.distinct columns computed keepAll = .ok t →
      (s.last.groupBy ≠ [] ∨ s.last.changesRowSet = true ∨
        ∃ n ∈ t.columnNames, s.last.AggregateColumn n ∧ n ∉ computed.map Prod.fst) →
      Preserves s.last t.last := by
  refine ⟨?_, ?_, ?_, ?_⟩
  · intro columns t h
    exact readsThrough_summarize_iff hagg h
  · intro columns t h
    exact preserved_select_iff hagg h
  · intro columns t h
    exact preserved_mutate hagg h
  · intro columns computed keepAll t h
    exact preserved_distinct hagg h

/-- One row, with the total of all people. -/
def grandTotal : Request where
  collection := "people"
  pipeline := [.summarize (.ofList [("total", .call .sum [.column "x"] [])])]

theorem grandTotal_kept_by_summary_that_reads_it :
    ∃ s t, grandTotal.run peopleCatalog (.builtIn .postgres) = .ok s ∧
      s.last.aggregates = true ∧
      s.summarize [("biggest", .call .max [.column "total"] [])] = .ok t ∧
      ReadsThrough s.last t.last := by
  have hrun : (grandTotal.run peopleCatalog (.builtIn .postgres)).map (fun s =>
      (s.last.aggregates, decide ("total" ∈ s.last.derivedColumns),
        (s.summarize [("biggest", .call .max [.column "total"] [])]).isOk)) =
      .ok (true, true, true) := by decide +kernel
  obtain ⟨s, hs, hfacts⟩ := map_eq_ok.1 hrun
  simp only [Prod.mk.injEq, decide_eq_true_eq] at hfacts
  obtain ⟨hagg, hderived, hok⟩ := hfacts
  obtain ⟨t, ht⟩ := exists_eq_ok hok
  refine ⟨s, t, hs, hagg, ht, ((aggregating_query_kept hagg).1 _ t ht).2 ?_⟩
  exact Or.inr (Or.inr ⟨"total", List.mem_append_left _ (by decide), hderived⟩)

/-- A summary that reads no column of a total aggregates the people again, and a column in place of
the total gives back a row for each of them. -/
theorem grandTotal_not_kept : ∃ s t u, grandTotal.run peopleCatalog (.builtIn .postgres) = .ok s ∧
    s.last.aggregates = true ∧ s.summarize [("rows", .call .count [] [])] = .ok t ∧
    ¬ReadsThrough s.last t.last ∧ s.mutate [("total", .literal (.int 1))] = .ok u ∧
    ¬Preserves s.last u.last := by
  have hrun : (grandTotal.run peopleCatalog (.builtIn .postgres)).map (fun s =>
      (s.last.aggregates, s.last.groupBy.isEmpty,
        (s.summarize [("rows", .call .count [] [])]).map fun t => t.last.readsTable,
        (s.mutate [("total", .literal (.int 1))]).map fun u =>
          (u.last.readsTable, u.last.columns.any fun c => c.2.aggregates))) =
      .ok (true, true, .ok true, .ok (true, false)) := by decide +kernel
  obtain ⟨s, hs, hfacts⟩ := map_eq_ok.1 hrun
  simp only [Prod.mk.injEq] at hfacts
  obtain ⟨hagg, hgroup, hsummary, hmutate⟩ := hfacts
  obtain ⟨t, ht, htable⟩ := map_eq_ok.1 hsummary
  obtain ⟨u, hu, hcolumns⟩ := map_eq_ok.1 hmutate
  simp only [Prod.mk.injEq] at hcolumns
  refine ⟨s, t, u, hs, hagg, ht, not_readsThrough_of_readsTable htable, hu, ?_⟩
  rintro (hread | hkeep)
  · exact not_readsThrough_of_readsTable hcolumns.1 hread
  · obtain ⟨c, hc, haggregate⟩ := hkeep.aggregates (List.isEmpty_iff.1 hgroup)
    exact List.any_eq_false.1 hcolumns.2 c hc haggregate

end PipelineSql
