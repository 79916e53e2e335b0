import PipelineSql.Proofs.Rebinding
import PipelineSql.Proofs.Relabelling

/-!
# The ordering under new names

The ordering is kept as expressions over the columns of the query, so `select` and `rename` have to
rewrite it. They rename all columns at once and keep the columns of a term apart, and then a term
compiles to what it compiled to before.
-/

namespace PipelineSql

open Sql (Ordered Select)

lemma Sql.Select.distinct_of_not_changesRowSet {q : Select} (h : q.changesRowSet = false) :
    q.distinct = false := by
  simp only [changesRowSet, Bool.or_eq_false_iff] at h
  exact h.1.1

namespace QueryState

variable {s t : QueryState}

/-- An ordering cannot be recorded for distinct rows. -/
def OrdersAllRows (s : QueryState) : Prop := s.last.distinct = true → s.order = []

namespace OrdersAllRows

lemma of_not_distinct (h : t.last.distinct = false) : t.OrdersAllRows := by
  intro hdistinct
  rw [h] at hdistinct
  cases hdistinct

lemma of_unordered (h : t.order = []) : t.OrdersAllRows := fun _ => h

lemma of_eq (hs : s.OrdersAllRows) (hlast : t.last.distinct = s.last.distinct)
    (horder : t.order = s.order) : t.OrdersAllRows := by
  intro hdistinct
  rw [horder]
  exact hs (hlast ▸ hdistinct)

lemma select {columns : List ColumnExpr} (h : s.select columns = .ok t) : t.OrdersAllRows := by
  obtain ⟨_, _, _, base, _, _, _, _, _, _, hwrap, _, rfl⟩ := select_cases h
  have hplain : base.distinct = false := distinct_of_wrapIf hwrap id
  exact of_not_distinct hplain

lemma rename {columns : List (String × ColumnExpr)} (hs : s.OrdersAllRows)
    (h : s.rename columns = .ok t) : t.OrdersAllRows := by
  obtain ⟨renames, _, _, _, _, rfl⟩ := rename_cases h
  intro hdistinct
  have hnone : s.order = [] := hs hdistinct
  simp [pushWith, renameOrder, hnone]

lemma filter {predicates : List ColumnExpr} (hs : s.OrdersAllRows)
    (h : s.filter predicates = .ok t) : t.OrdersAllRows := by
  rcases filter_cases h with ⟨_, rfl⟩ | ⟨_, _, _, _, _, _, _, _, _, _, _, _, _, _, _, rfl⟩
  · exact hs
  · exact of_not_distinct rfl

/-- A column is not computed beside distinct rows, but above them. -/
lemma mutate {columns : List (String × ColumnExpr)} (hs : s.OrdersAllRows)
    (h : s.mutate columns = .ok t) : t.OrdersAllRows := by
  rcases mutate_cases h with ⟨_, rfl⟩ | ⟨q, aliases, hadd, rfl⟩
  · exact hs
  refine addColumns_induction (motive := fun q _ => q.distinct = true → s.order = []) ?_ hs hadd
  intro name e q aliases q' aliases' _ hcolumn hdistinct
  obtain ⟨base, _, _, hwrap, _, _, rfl⟩ := addColumn_cases hcolumn
  have hplain : base.distinct = false := by
    refine distinct_of_wrapIf hwrap fun hneeded => ?_
    simp only [Bool.or_eq_false_iff] at hneeded
    exact Select.distinct_of_not_changesRowSet hneeded.1.1
  have hbase : base.distinct = true := hdistinct
  rw [hplain] at hbase
  cases hbase

lemma arrange {terms : List ColumnExpr} (hs : s.OrdersAllRows) (h : s.arrange terms = .ok t) :
    t.OrdersAllRows := by
  rcases arrange_cases h with rfl | ⟨base, _, _, hwrap, _, rfl⟩
  · exact hs
  have hplain : base.distinct = false :=
    distinct_of_wrapIf hwrap Select.distinct_of_not_changesRowSet
  exact of_not_distinct hplain

lemma step (hs : s.OrdersAllRows) (h : Step s t) : t.OrdersAllRows := by
  cases h with
  | select h => exact select h
  | rename h => exact hs.rename h
  | filter h => exact hs.filter h
  | mutate h => exact hs.mutate h
  | arrange h => exact hs.arrange h
  | summarize h =>
    obtain ⟨_, _, _, _, _, _, _, _, _, _, _, rfl⟩ := summarize_cases h
    exact of_unordered rfl
  | count h =>
    obtain ⟨_, _, _, _, _, _, _, horder⟩ := columnNames_count h
    exact of_unordered horder
  | distinct h =>
    obtain ⟨_, _, _, _, horder⟩ := columnNames_distinct h
    exact of_unordered horder
  | head n => exact hs.of_eq rfl rfl
  | groupBy h =>
    obtain ⟨groups, rfl⟩ := groupBy_cases h
    exact hs.of_eq rfl rfl
  | ungroup => exact hs.of_eq rfl rfl

lemma reachable {tables : Set TableInfo} {functions : Set FunctionTable}
    (h : Reachable tables functions s) : s.OrdersAllRows := by
  induction h with
  | table collection _ _ => exact of_unordered rfl
  | step _ hstep ih => exact ih.step hstep
  | join _ _ hjoin _ _ =>
    obtain ⟨_, _, _, _, _, _, _, rfl, _⟩ := join_parts hjoin
    exact of_unordered rfl

end OrdersAllRows

/-- A query keeps terms of the ordering of another under labels: these terms in the same order and
with their directions, each of which compiles, once its columns are renamed, exactly to what it
compiled to. -/
structure KeepsOrdering (s t : QueryState) (terms : List (Ordered ColumnExpr))
    (label : String → String) : Prop where
  order : t.order = terms.map fun term => ⟨term.target.rename label, term.direction⟩
  compiles : ∀ term ∈ terms, ∀ x,
    t.compileIn (.ofSelectList t.last) .scalar {} (term.target.rename label) = .ok x ↔
      s.compileIn (.ofSelectList s.last) .scalar {} term.target = .ok x

namespace KeepsOrdering

variable {terms : List (Ordered ColumnExpr)} {label : String → String} {names : List String}

/-- Labels that keep columns apart, and under which these stand for what they stood for, keep the
terms that read them. -/
lemma of_injective (hs : s.Anchored) (hfunctions : t.functions = s.functions)
    (hterms : ∀ term ∈ terms, term ∈ s.order)
    (horder : t.order = terms.map fun term => ⟨term.target.rename label, term.direction⟩)
    (hnames : ∀ term ∈ terms, ∀ n ∈ term.target.reads, n ∈ names)
    (hinj : ∀ n ∈ names, ∀ m ∈ names, label n = label m → n = m)
    (hstands : ∀ n ∈ names, ∃ x, (Scope.ofSelectList s.last).lookup n = .ok x ∧
      (Scope.ofSelectList t.last).lookup (label n) = .ok x) : s.KeepsOrdering t terms label where
  order := horder
  compiles := by
    intro term hterm x
    have hreads := hnames term hterm
    rw [compileIn, hfunctions]
    refine compileIn_rename_iff (hs.order term (hterms term hterm)).1 ?_ ?_
    · exact fun n hn m hm => hinj n (hreads n hn) m (hreads m hm)
    · exact fun n hn => hstands n (hreads n hn)

lemma rename {columns : List (String × ColumnExpr)} (hs : s.Anchored)
    (h : s.rename columns = .ok t) : ∃ renames, parseRenames s.columnNames columns = .ok renames ∧
      s.KeepsOrdering t s.order (newName renames) := by
  obtain ⟨renames, hparse, _, horder, hnodup, hstands⟩ := lookup_rename h
  refine ⟨renames, hparse, ?_⟩
  refine of_injective hs (Step.rename h).functions_eq (fun term hterm => hterm) horder
    (fun term hterm => (hs.order term hterm).2) ?_ hstands
  exact fun n hn m hm => List.inj_on_of_nodup_map hnodup hn hm

lemma select {columns : List ColumnExpr} (hs : s.Anchored) (hordered : s.OrdersAllRows)
    (h : s.select columns = .ok t) : ∃ chosen, s.chosen columns = .ok chosen ∧
      s.KeepsOrdering t
        (s.order.filter fun term => term.target.reads.all fun n =>
          n ∈ (withGroups chosen s.groups.toList).values)
        (newName (selectionRenames (withGroups chosen s.groups.toList))) := by
  obtain ⟨chosen, hchosen, _, horder, hstands⟩ := lookup_select h
  refine ⟨chosen, hchosen, ?_⟩
  by_cases hdistinct : s.last.distinct = true
  · -- Only here does a column stand for something else afterwards, and no term reads it.
    rw [hordered hdistinct] at horder ⊢
    exact ⟨horder, fun term hterm => absurd hterm List.not_mem_nil⟩
  have hscope : s.selectScope = .ofSelectList s.last := if_neg hdistinct
  rw [hscope] at hstands
  refine of_injective hs (Step.select h).functions_eq
    (fun term hterm => List.mem_of_mem_filter hterm) horder ?_
    (OrderedMap.eq_of_label_eq fun n => get?_newName) fun n hn => hstands _ n (get?_newName hn)
  intro term hterm n hn
  simpa using List.all_eq_true.1 (List.mem_filter.1 hterm).2 n hn

end KeepsOrdering

end QueryState

open QueryState

/-- In every query that can be built, `rename` keeps the ordering, and `select` keeps exactly the
terms all of whose columns it selects; both keep what the terms compile to. Distinct rows have
no ordering to keep. -/
theorem relabelling_keeps_ordering {tables : Set TableInfo} {functions : Set FunctionTable}
    {s : QueryState} (h : Reachable tables functions s) :
    (s.last.distinct = true → s.order = []) ∧
    (∀ columns t, s.rename columns = .ok t →
      ∃ renames, parseRenames s.columnNames columns = .ok renames ∧
        s.KeepsOrdering t s.order (newName renames)) ∧
    ∀ columns t, s.select columns = .ok t → ∃ chosen, s.chosen columns = .ok chosen ∧
      s.KeepsOrdering t
        (s.order.filter fun term => term.target.reads.all fun n =>
          n ∈ (withGroups chosen s.groups.toList).values)
        (newName (selectionRenames (withGroups chosen s.groups.toList))) := by
  have hordered : s.OrdersAllRows := .reachable h
  refine ⟨hordered, ?_, ?_⟩
  · exact fun columns t hrename => KeepsOrdering.rename (.reachable h) hrename
  · exact fun columns t hselect => KeepsOrdering.select (.reachable h) hordered hselect

/-- People by falling number, and then by a sum of both columns. -/
def orderedPeople : Request where
  collection := "people"
  pipeline := [.arrange [.call .descending [.column "x"] [],
    .call .add [.column "g", .column "x"] []]]

/-- The columns change places in the ordering as they do in the select list, and a selection of one
of them under both names keeps the term that reads no other. -/
theorem orderedPeople_keep_ordering : ∃ s t u,
    orderedPeople.run peopleCatalog (.builtIn .postgres) = .ok s ∧
    s.rename [("x", .column "g"), ("g", .column "x")] = .ok t ∧
    s.select [.call .equal [.column "g", .column "x"] [], .column "x"] = .ok u ∧
    t.order = [⟨.column "g", .desc⟩, ⟨.call .add [.column "x", .column "g"] [], .asc⟩] ∧
    u.order = [⟨.column "g", .desc⟩] ∧
    ∀ x, (t.compileIn (.ofSelectList t.last) .scalar {} (.column "g") = .ok x ↔
        s.compileIn (.ofSelectList s.last) .scalar {} (.column "x") = .ok x) ∧
      (u.compileIn (.ofSelectList u.last) .scalar {} (.column "g") = .ok x ↔
        s.compileIn (.ofSelectList s.last) .scalar {} (.column "x") = .ok x) := by
  have hrun : (orderedPeople.run peopleCatalog (.builtIn .postgres)).map (fun s => (s.order,
      (s.rename [("x", .column "g"), ("g", .column "x")]).map QueryState.order,
      (s.select [.call .equal [.column "g", .column "x"] [], .column "x"]).map QueryState.order)) =
      .ok ([⟨.column "x", .desc⟩, ⟨.call .add [.column "g", .column "x"] [], .asc⟩],
        .ok [⟨.column "g", .desc⟩, ⟨.call .add [.column "x", .column "g"] [], .asc⟩],
        .ok [⟨.column "g", .desc⟩]) := by decide +kernel
  obtain ⟨s, hs, hfacts⟩ := map_eq_ok.1 hrun
  simp only [Prod.mk.injEq, map_eq_ok] at hfacts
  obtain ⟨hbefore, ⟨t, ht, htorder⟩, u, hu, huorder⟩ := hfacts
  obtain ⟨_, hrename, hselect⟩ := relabelling_keeps_ordering (orderedPeople.run_reachable hs)
  obtain ⟨_, _, hrenamed⟩ := hrename _ t ht
  obtain ⟨_, _, hselected⟩ := hselect _ u hu
  -- The one falling term of the ordering is the number of a person.
  have hnumber : ∀ q terms label, s.KeepsOrdering q terms label →
      (∀ term ∈ terms, term ∈ s.order) → ⟨.column "g", .desc⟩ ∈ q.order →
      ∀ x, q.compileIn (.ofSelectList q.last) .scalar {} (.column "g") = .ok x ↔
        s.compileIn (.ofSelectList s.last) .scalar {} (.column "x") = .ok x := by
    intro q terms label hkeeps hterms hfalling
    rw [hkeeps.order] at hfalling
    obtain ⟨term, hterm, hlabelled⟩ := List.mem_map.1 hfalling
    rw [Ordered.mk.injEq] at hlabelled
    have hx : term.target = .column "x" := by
      have hmem := hterms term hterm
      rw [hbefore] at hmem
      rcases List.mem_pair.1 hmem with rfl | rfl
      · rfl
      · cases hlabelled.2
    rw [← hlabelled.1, ← hx]
    exact hkeeps.compiles term hterm
  refine ⟨s, t, u, hs, ht, hu, htorder, huorder, fun x => ⟨?_, ?_⟩⟩
  · exact hnumber t _ _ hrenamed (fun term hterm => hterm) (by simp [htorder]) x
  · exact hnumber u _ _ hselected (fun term hterm => List.mem_of_mem_filter hterm)
      (by simp [huorder]) x

end PipelineSql
