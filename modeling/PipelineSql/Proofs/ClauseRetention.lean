import PipelineSql.Proofs.Reachability

/-!
# Clauses that decide the rows are never lost

A verb edits the current query in place or reads it through a subquery. Either way the clauses
that decide which rows there are stay in the statement: what is wrapped is nested unchanged, and
what is edited in place carries none of the clauses that the edit would disturb.
-/

namespace PipelineSql

open Sql (Expr Ordered Select AliasCounter)

namespace Sql.Select

/-- The second query has all clauses of the first that decide its rows. -/
structure Keeps (q p : Select) : Prop where
  source : p.source = q.source
  joins : p.joins = q.joins
  condition : p.condition = q.condition
  groupBy : q.groupBy ≠ [] → p.groupBy = q.groupBy
  distinct : q.distinct = true →
    p.distinct = true ∧ p.columns.map Prod.snd = q.columns.map Prod.snd
  limit : ∀ n, q.limit = some n →
    p.offset = q.offset ∧ p.orderBy = q.orderBy ∧ ∃ m, p.limit = some m ∧ m ≤ n

lemma Keeps.refl (q : Select) : Keeps q q :=
  ⟨rfl, rfl, rfl, fun _ => rfl, fun h => ⟨h, rfl⟩, fun n h => ⟨rfl, rfl, n, h, UInt32.le_refl n⟩⟩

lemma Keeps.trans {q p r : Select} (hqp : Keeps q p) (hpr : Keeps p r) : Keeps q r where
  source := hpr.source.trans hqp.source
  joins := hpr.joins.trans hqp.joins
  condition := hpr.condition.trans hqp.condition
  groupBy := by
    intro hq
    have hp := hqp.groupBy hq
    rw [hpr.groupBy (by rwa [hp]), hp]
  distinct := by
    intro hq
    obtain ⟨hp, hcols⟩ := hqp.distinct hq
    obtain ⟨hr, hcols'⟩ := hpr.distinct hp
    exact ⟨hr, hcols'.trans hcols⟩
  limit := by
    intro n hn
    obtain ⟨hoff, hord, m, hm, hmn⟩ := hqp.limit n hn
    obtain ⟨hoff', hord', k, hk, hkm⟩ := hpr.limit m hm
    exact ⟨hoff'.trans hoff, hord'.trans hord, k, hk, UInt32.le_trans hkm hmn⟩

/-- The second query has one nested in it, perhaps itself, that keeps the clauses of the first. -/
def Retains (q r : Select) : Prop := ∃ p, Nested p r ∧ Keeps q p

lemma Keeps.retains {q p : Select} (h : Keeps q p) : Retains q p := ⟨p, .root p, h⟩

lemma Nested.retains {q r : Select} (h : Nested q r) : Retains q r := ⟨q, h, .refl q⟩

/-- What is nested strictly inside a query stays so in whatever keeps the items of the query. -/
lemma Retains.trans {q r u : Select} (hqr : Retains q r) (hru : Retains r u) : Retains q u := by
  obtain ⟨p, hp, hkeep⟩ := hqr
  obtain ⟨p', hp', hkeep'⟩ := hru
  -- A query strictly inside stays there, because what keeps the clauses has the same items.
  rcases nested_iff.1 hp with rfl | hbelow
  · exact ⟨p', hp', hkeep.trans hkeep'⟩
  · have hitems : p'.items = r.items := items_congr hkeep'.source hkeep'.joins
    have hin : Nested p p' := nested_iff.2 (Or.inr (hbelow.congr hitems))
    exact ⟨p, hin.trans hp', hkeep⟩

/-- An edit of the other clauses, of a query that neither limits its rows nor makes them
distinct. -/
lemma Keeps.of_not_changesRowSet {q p : Select} (hq : q.changesRowSet = false)
    (hsource : p.source = q.source) (hjoins : p.joins = q.joins)
    (hcondition : p.condition = q.condition) (hgroup : q.groupBy ≠ [] → p.groupBy = q.groupBy) :
    Keeps q p := by
  simp only [changesRowSet, Bool.or_eq_false_iff, Option.isSome_eq_false_iff,
    Option.isNone_iff_eq_none] at hq
  obtain ⟨⟨hdistinct, hlimit⟩, _⟩ := hq
  refine ⟨hsource, hjoins, hcondition, hgroup, ?_, ?_⟩
  · intro h
    simp [hdistinct] at h
  · intro n h
    simp [hlimit] at h

end Sql.Select

open Sql.Select

namespace QueryState

/-- An edit after a wrap that is made when the edit would disturb the clauses. -/
lemma retains_edit {needed : Bool} {q base : Select} {aliases aliases' : AliasCounter}
    (edit : Select → Select) (h : wrapIf needed q aliases = (base, aliases'))
    (hsource : ∀ p, (edit p).source = p.source)
    (hkeep : needed = false → Keeps q (edit q)) : Retains q (edit base) := by
  rcases wrapIf_cases h with ⟨hfalse, rfl, _⟩ | ⟨rfl, _⟩
  · exact (hkeep hfalse).retains
  · exact (nested_of_source (hsource (q.throughSubquery ⟨"subquery", aliases.next⟩))).retains

lemma retains_select {s t : QueryState} {columns : List ColumnExpr}
    (h : s.select columns = .ok t) : Retains s.last t.last := by
  obtain ⟨_, _, _, base, aliases, list, _, _, _, _, hwrap, _, rfl⟩ := select_cases h
  refine retains_edit (fun p => { p with columns := list }) hwrap (fun _ => rfl) ?_
  intro hdistinct
  refine ⟨rfl, rfl, rfl, fun _ => rfl, ?_, fun n hn => ⟨rfl, rfl, n, hn, UInt32.le_refl n⟩⟩
  intro hd
  simp [hdistinct] at hd

lemma retains_rename {s t : QueryState} {columns : List (String × ColumnExpr)}
    (h : s.rename columns = .ok t) : Retains s.last t.last := by
  obtain ⟨renames, list, _, rfl, _, rfl⟩ := rename_cases h
  refine Keeps.retains ⟨rfl, rfl, rfl, fun _ => rfl, ?_, ?_⟩
  · intro hd
    refine ⟨hd, ?_⟩
    simp [pushWith, push, Function.comp_def]
  · intro n hn
    exact ⟨rfl, rfl, n, hn, UInt32.le_refl n⟩

lemma retains_addColumn {s : QueryState} {name : String} {e : ColumnExpr} {q q' : Select}
    {aliases aliases' : AliasCounter} (h : s.addColumn name e q aliases = .ok (q', aliases')) :
    Retains q q' := by
  obtain ⟨base, windows, x, hwrap, _, _, rfl⟩ := addColumn_cases h
  refine retains_edit (fun p => { p with columns := putEntry name x p.columns }) hwrap
    (fun _ => rfl) ?_
  intro hneeded
  simp only [Bool.or_eq_false_iff] at hneeded
  exact .of_not_changesRowSet hneeded.1.1 rfl rfl rfl fun _ => rfl

lemma retains_mutate {s t : QueryState} {columns : List (String × ColumnExpr)}
    (h : s.mutate columns = .ok t) : Retains s.last t.last := by
  rcases mutate_cases h with ⟨_, rfl⟩ | ⟨q, aliases, hadd, rfl⟩
  · exact (Keeps.refl _).retains
  · refine addColumns_induction (motive := fun q _ => Retains s.last q) ?_
      (Keeps.refl _).retains hadd
    intro name e q aliases q' aliases' hq hstep
    exact hq.trans (retains_addColumn hstep)

lemma retains_filter {s t : QueryState} {predicates : List ColumnExpr}
    (h : s.filter predicates = .ok t) : Retains s.last t.last := by
  rcases filter_cases h with ⟨_, rfl⟩ | ⟨subquery, windows, scope, context, conditions, found, inner,
    list, _, _, _, _, _, hinner, _, rfl⟩
  · exact (Keeps.refl _).retains
  · have hlast : Nested s.last inner := by
      rw [hinner]
      exact nested_of_source rfl
    exact (hlast.trans (nested_of_source rfl)).retains

lemma retains_distinct {s t : QueryState} {columns : List ColumnExpr}
    {computed : List (String × ColumnExpr)} {keepAll : Bool}
    (h : s.distinct columns computed keepAll = .ok t) : Retains s.last t.last := by
  obtain ⟨_, base, names, inner, aliases, list, _, hbase, _, hwrap, _, rfl⟩ := distinct_cases h
  refine (retains_mutate hbase).trans ?_
  refine retains_edit (fun p => { p with columns := list, distinct := true }) hwrap
    (fun _ => rfl) ?_
  intro hneeded
  simp only [Bool.or_eq_false_iff] at hneeded
  exact .of_not_changesRowSet hneeded.1 rfl rfl rfl fun _ => rfl

lemma retains_arrange {s t : QueryState} {terms : List ColumnExpr}
    (h : s.arrange terms = .ok t) : Retains s.last t.last := by
  rcases arrange_cases h with rfl | ⟨base, aliases, resolved, hwrap, _, rfl⟩
  · exact (Keeps.refl _).retains
  · refine retains_edit (fun p => { p with orderBy := p.orderBy ++ resolved }) hwrap
      (fun _ => rfl) ?_
    intro hneeded
    exact .of_not_changesRowSet hneeded rfl rfl rfl fun _ => rfl

lemma retains_summarize {s t : QueryState} {columns : List (String × ColumnExpr)}
    (h : s.summarize columns = .ok t) : Retains s.last t.last := by
  obtain ⟨shaped, base, aliases, groups, aggregates, _, _, _, hwrap, _, _, rfl⟩ :=
    summarize_cases h
  refine retains_edit (fun p => { p with
    orderBy := [], columns := groups ++ aggregates, groupBy := groups.map Prod.snd }) hwrap
    (fun _ => rfl) ?_
  intro hneeded
  simp only [Bool.or_eq_false_iff, Bool.not_eq_false', List.isEmpty_iff] at hneeded
  exact .of_not_changesRowSet hneeded.1.2 rfl rfl rfl fun hg => absurd hneeded.1.1 hg

lemma retains_count {s t : QueryState} {columns : List ColumnExpr} {name : Option String}
    {sort : Bool} (h : s.count columns name sort = .ok t) : Retains s.last t.last := by
  obtain ⟨subquery, grouped, scope, counted, list, inner, groups, groupColumns, _, _, _, _,
    hinner, _, _, rfl⟩ := count_cases h
  have hlast : Nested s.last inner := by
    rw [hinner]
    exact nested_of_source rfl
  exact (hlast.trans (nested_of_source rfl)).retains

lemma retains_head (s : QueryState) (n : UInt32) : Retains s.last (s.head n).last := by
  refine Keeps.retains ⟨rfl, rfl, rfl, fun _ => rfl, fun h => ⟨h, rfl⟩, ?_⟩
  intro m hm
  refine ⟨rfl, rfl, min m n, ?_, ?_⟩
  · simp [head, push, hm]
  · exact Std.min_le_left

lemma nested_join {s t u : QueryState} {keys : JoinKeys} {kind : JoinKind}
    (h : s.join t keys kind = .ok u) : Nested s.last u.last ∧ Nested t.last u.last := by
  obtain ⟨_, lhs, rhs, _, _, condition, leftList, rightList, _, _, _, _, _, _, _, _, _, _, rfl⟩ :=
    join_cases h
  exact ⟨.inside (.root _) (mem_items_joinStage.2 (Or.inl rfl)),
    .inside (.root _) (mem_items_joinStage.2 (Or.inr rfl))⟩

end QueryState

open QueryState

/-- One verb keeps the clauses, at the root or nested. -/
lemma retains_step {s t : QueryState} (h : Step s t) : Retains s.last t.last := by
  cases h with
  | select h => exact retains_select h
  | rename h => exact retains_rename h
  | filter h => exact retains_filter h
  | mutate h => exact retains_mutate h
  | arrange h => exact retains_arrange h
  | summarize h => exact retains_summarize h
  | count h => exact retains_count h
  | distinct h => exact retains_distinct h
  | head n => exact retains_head s n
  | groupBy h =>
    obtain ⟨groups, rfl⟩ := groupBy_cases h
    exact (Keeps.refl _).retains
  | ungroup => exact (Keeps.refl _).retains

/-- Whatever is made of a query by verbs and by joins on either side, its statement holds a query
with the same source, joins and condition, with the grouping, the distinct rows and their
expressions, and with a limit that is no larger, over the same order and offset. -/
theorem derived_query_keeps_row_clauses {s t : QueryState} (h : Derives s t) :
    ∃ p, Nested p t.last ∧ Keeps s.last p := by
  change Retains s.last t.last
  induction h with
  | refl => exact (Keeps.refl _).retains
  | step _ hstep ih => exact ih.trans (retains_step hstep)
  | joinLeft _ hjoin ih => exact ih.trans (nested_join hjoin).1.retains
  | joinRight _ hjoin ih => exact ih.trans (nested_join hjoin).2.retains

/-- Distinct people, the first three of them: a column and a join on top keep both clauses. -/
theorem distinct_limit_kept_below_mutate_and_join :
    ∃ s t u, (people .postgres).distinct [] [] false = .ok s ∧
      (s.head 3).mutate [("y", .call .add [.column "x", .literal (.int 1)] [])] = .ok t ∧
      (people .postgres).join t (.columns ["g"]) .left = .ok u ∧
      (s.head 3).last.distinct = true ∧ (s.head 3).last.limit = some 3 ∧
      ∃ p, Nested p u.last ∧ Keeps (s.head 3).last p := by
  have hs : ∃ s, (people .postgres).distinct [] [] false = .ok s ∧
      (s.head 3).last.distinct = true ∧ (s.head 3).last.limit = some 3 ∧
      ∃ t, (s.head 3).mutate [("y", .call .add [.column "x", .literal (.int 1)] [])] = .ok t ∧
        ∃ u, (people .postgres).join t (.columns ["g"]) .left = .ok u :=
    ⟨_, rfl, rfl, rfl, _, rfl, _, rfl⟩
  obtain ⟨s, hs, hdistinct, hlimit, t, ht, u, hu⟩ := hs
  exact ⟨s, t, u, hs, ht, hu, hdistinct, hlimit,
    derived_query_keeps_row_clauses (.joinRight (.step .refl (.mutate ht)) hu)⟩

end PipelineSql
