import PipelineSql.Proofs.OrderTranslation
import PipelineSql.Proofs.Relabelling

/-!
# Narrowing a query

A selection of columns by their names keeps these columns behind the grouping columns that it lacks,
and it keeps the grouping and what can be kept of the ordering. So a selection of columns that are
still there after another selection gives the same query without the other one.
-/

namespace PipelineSql

open Sql (Expr Select Ordered AliasCounter)

section Diagonal

lemma OrderedSet.eq_of_toList_eq {a b : OrderedSet} (h : a.toList = b.toList) : a = b := by
  cases a
  cases b
  cases h
  rfl

lemma map_fst_diagonal (l : List String) : (l.map fun n => (n, n)).map Prod.fst = l := by
  simp [Function.comp_def]

lemma map_snd_diagonal (l : List String) : (l.map fun n => (n, n)).map Prod.snd = l := by
  simp [Function.comp_def]

lemma putEntry_diagonal {l : List String} {n : String} (h : n ∈ l) :
    putEntry n n (l.map fun m => (m, m)) = l.map fun m => (m, m) := by
  induction l with
  | nil => simp at h
  | cons m l ih =>
    by_cases hm : m = n
    · simp [putEntry, hm]
    · have hl : n ∈ l := by
        rcases List.mem_cons.1 h with rfl | hl
        · exact absurd rfl hm
        · exact hl
      simp [putEntry, hm, ih hl]

/-- Names that are entered under themselves are the names of a set. -/
lemma OrderedMap.entries_extend_diagonal {names : List String} {m : OrderedMap String}
    {set : OrderedSet} (h : m.entries = set.toList.map fun n => (n, n)) :
    (m.extend (names.map fun n => (n, n))).entries =
      (set.extend names).toList.map fun n => (n, n) := by
  induction names generalizing m set with
  | nil => exact h
  | cons n names ih =>
    have hstep : m.extend ((n :: names).map fun n => (n, n)) =
        (m.insert n n).extend (names.map fun n => (n, n)) := rfl
    have hset : set.extend (n :: names) = (set.insert n).extend names := rfl
    rw [hstep, hset]
    refine ih ?_
    have hput : (m.insert n n).entries = putEntry n n m.entries := rfl
    rw [hput, h, OrderedSet.toList_insert]
    split
    · exact putEntry_diagonal ‹_›
    · rw [OrderedMap.putEntry_of_not_mem, List.map_append, List.map_singleton]
      simpa using ‹n ∉ set.toList›

end Diagonal

/-- The names of arguments each of which stands for a single column. -/
def ColumnExpr.namesOf? (columns : List ColumnExpr) : Option (List String) :=
  columns.mapM fun e => e.shape.simpleName?

/-- The columns that a selection by names leaves: the grouping columns that it lacks, and then the
names, each at its first place. -/
def keptColumns (groups names : List String) : List String :=
  groups.filter (fun g => g ∉ names) ++ (OrderedSet.ofList names).toList

lemma mem_keptColumns {groups names : List String} {n : String} :
    n ∈ keptColumns groups names ↔ n ∈ groups ∨ n ∈ names := by
  rw [keptColumns, List.mem_append, List.mem_filter, ← OrderedSet.mem_def, OrderedSet.mem_ofList]
  by_cases hn : n ∈ names <;> simp [hn]

lemma nodup_keptColumns {groups names : List String} (h : groups.Nodup) :
    (keptColumns groups names).Nodup := by
  refine List.nodup_append.2 ⟨h.filter _, (OrderedSet.ofList names).nodup, ?_⟩
  rintro n hn m hm rfl
  have hmem : n ∈ names := OrderedSet.mem_ofList.1 hm
  simpa [hmem] using (List.mem_filter.1 hn).2

namespace Selector

variable {available names : List String}

lemma parse_of_simpleName {e : ColumnExpr} {n : String} (h : e.simpleName? = some n)
    (hn : n ∈ available) : parse available e = .ok (.keep [n]) := by
  have hknown : known available n = .ok n := if_pos hn
  unfold parse
  split
  · cases h
  · cases h
  · cases h
  · rw [h]
    simp [hknown, Except.map]

/-- Single columns are chosen one after another. -/
lemma entries_selection_keep (hnames : names ≠ []) :
    (selection available (names.map fun n => .keep [n])).entries =
      (OrderedSet.ofList names).toList.map fun n => (n, n) := by
  have hsome : ((names.map fun n => Selector.keep [n]).all isDrop) = false := by
    obtain ⟨n, rest, rfl⟩ := List.exists_cons_of_ne_nil hnames
    rfl
  have hfold : selection available (names.map fun n => .keep [n]) =
      OrderedMap.ofList (names.map fun n => (n, n)) := by
    simp only [selection, hsome, Bool.false_eq_true, if_false, List.foldl_map, OrderedMap.ofList,
      OrderedMap.extend]
    rfl
  rw [hfold]
  exact OrderedMap.entries_extend_diagonal rfl

end Selector

section Kept

variable {chosen : OrderedMap String} {names : List String}

lemma outputOf?_diagonal (h : chosen.entries = names.map fun n => (n, n)) {g k : String}
    (hg : outputOf? chosen g = some k) : k = g := by
  obtain ⟨e, he, rfl⟩ := Option.map_eq_some_iff.1 hg
  obtain rfl : e.2 = g := by simpa using List.find?_some he
  have hmem := List.mem_of_find?_eq_some he
  rw [h] at hmem
  obtain ⟨n, _, rfl⟩ := List.mem_map.1 hmem
  rfl

lemma entries_withGroups_diagonal {groups : List String} (hgroups : groups.Nodup)
    (h : chosen.entries = (OrderedSet.ofList names).toList.map fun n => (n, n)) :
    (withGroups chosen groups).entries = (keptColumns groups names).map fun n => (n, n) := by
  have hvalues : ∀ g, g ∈ chosen.values ↔ g ∈ names := by
    intro g
    have hmem : g ∈ OrderedSet.ofList names ↔ g ∈ names := OrderedSet.mem_ofList
    rw [OrderedMap.values, h, ← hmem, OrderedSet.mem_def]
    simp
  have hmissing : (groups.filter fun g => (outputOf? chosen g).isNone) =
      groups.filter fun g => g ∉ names := by
    refine List.filter_congr fun g _ => ?_
    rw [← Bool.coe_iff_coe, Option.isNone_iff_eq_none, outputOf?_eq_none, hvalues]
    simp
  have hfirst :
      (OrderedMap.ofList ((groups.filter fun g => g ∉ names).map fun g => (g, g))).entries =
      (groups.filter fun g => g ∉ names).map fun g => (g, g) :=
    OrderedMap.entries_ofList_of_nodup ((map_fst_diagonal _).symm ▸ hgroups.filter _)
  rw [withGroups, hmissing, OrderedMap.entries_extend_of_nodup, hfirst, h, ← List.map_append]
  · rfl
  · rw [hfirst, h, ← List.map_append, map_fst_diagonal]
    exact nodup_keptColumns hgroups

/-- A selection that changes no name renames nothing. -/
lemma renameOrder_diagonal (h : chosen.entries = names.map fun n => (n, n))
    (order : List (Ordered ColumnExpr)) : renameOrder (selectionRenames chosen) order = order := by
  have hnone : selectionRenames chosen = .empty := by
    have hsame : (chosen.entries.filter fun e => e.1 ≠ e.2) = [] := by
      rw [h, List.filter_eq_nil_iff]
      intro e he
      obtain ⟨n, _, rfl⟩ := List.mem_map.1 he
      simp
    rw [selectionRenames, hsame]
    rfl
  rw [hnone, renameOrder]
  refine (List.map_congr_left fun term _ => ?_).trans (List.map_id order)
  have htarget : term.target.rename (newName .empty) = term.target :=
    ColumnExpr.rename_eq_self fun _ _ => rfl
  rw [htarget]
  rfl

/-- A selection that changes no name keeps the grouping. -/
lemma ofList_groupLabels_diagonal (h : chosen.entries = names.map fun n => (n, n))
    (groups : OrderedSet) :
    OrderedSet.ofList (groups.toList.map fun g => (outputOf? chosen g).getD g) = groups := by
  have hsame : (groups.toList.map fun g => (outputOf? chosen g).getD g) = groups.toList := by
    refine (List.map_congr_left fun g _ => ?_).trans (List.map_id _)
    cases hout : outputOf? chosen g with
    | none => rfl
    | some k => exact outputOf?_diagonal h hout
  refine OrderedSet.eq_of_toList_eq ?_
  rw [hsame]
  exact OrderedSet.toList_extend_of_nodup groups.nodup

end Kept

namespace QueryState

/-- The ordering terms that read nothing but some columns. -/
def orderWithin (s : QueryState) (names : List String) : List (Ordered ColumnExpr) :=
  s.order.filter fun term => term.target.reads.all fun n => n ∈ names

/-- Of the terms that read some columns, those that read fewer are found again. -/
lemma filter_orderWithin {s : QueryState} {wide narrow : List String}
    (h : ∀ n ∈ narrow, n ∈ wide) :
    (s.orderWithin wide).filter (fun term => term.target.reads.all fun n => n ∈ narrow) =
      s.orderWithin narrow := by
  rw [orderWithin, List.filter_filter]
  refine List.filter_congr fun term _ => ?_
  rw [← Bool.coe_iff_coe, Bool.and_eq_true, List.all_eq_true, List.all_eq_true]
  simp only [decide_eq_true_eq]
  exact and_iff_left_of_imp fun hreads n hn => h n (hreads n hn)

/-- What a selection of columns by their names gives. -/
lemma select_names {s : QueryState} (hs : s.Anchored) {columns : List ColumnExpr}
    {names : List String} (hcolumns : ColumnExpr.namesOf? columns = some names) (hne : names ≠ [])
    (hknown : ∀ n ∈ names, n ∈ s.columnNames) {base : Select} {aliases : AliasCounter}
    (hwrap : wrapIf s.last.distinct s.last s.aliases = (base, aliases)) :
    ∃ list, (Scope.ofSelectList base).project (keptColumns s.groups.toList names) = .ok list ∧
      s.select columns = .ok (s.pushWith { base with columns := list } aliases s.groups
        (s.orderWithin (keptColumns s.groups.toList names))) := by
  have hparse : columns.mapM (fun e => Selector.parse s.columnNames e.shape) =
      .ok (names.map fun n => .keep [n]) := by
    rw [mapM_eq_ok, List.forall₂_map_right_iff]
    refine (forall₂_imp_mem (mapM_eq_some.1 hcolumns).flip ?_).flip
    exact fun n hn e he => Selector.parse_of_simpleName he (hknown n hn)
  have hchosen : (Selector.selection s.columnNames (names.map fun n => .keep [n])).entries = _ :=
    Selector.entries_selection_keep hne
  have hentries := entries_withGroups_diagonal s.groups.nodup hchosen
  have hvalues := congrArg (List.map Prod.snd) hentries
  rw [map_snd_diagonal] at hvalues
  obtain ⟨list, hlist⟩ : ∃ list, (Scope.ofSelectList base).project
      (keptColumns s.groups.toList names) = .ok list := by
    refine exists_project_eq_ok fun n hn => ?_
    rw [Scope.mem_names_ofSelectList, columnNames_wrapIf hwrap]
    rcases mem_keptColumns.1 hn with hn | hn
    · exact hs.groups n hn
    · exact hknown n hn
  refine ⟨list, hlist, ?_⟩
  simp only [select, bind_eq_ok, throwing_eq_ok, pure_eq_ok]
  refine ⟨_, hparse, ?_, list, ?_, ?_⟩
  · obtain ⟨n, hn⟩ := List.exists_mem_of_ne_nil names hne
    have hkept : n ∈ keptColumns s.groups.toList names := mem_keptColumns.2 (Or.inr hn)
    rw [OrderedMap.isEmpty, hentries, List.isEmpty_iff, List.map_eq_nil_iff]
    exact List.ne_nil_of_mem hkept
  · rw [hentries, hwrap, mapM_eq_ok, List.forall₂_map_left_iff]
    exact mapM_eq_ok.1 hlist
  · rw [ofList_groupLabels_diagonal hchosen, renameOrder_diagonal hentries, OrderedMap.values,
      hvalues, hwrap, orderWithin]

end QueryState

/-- Columns of a projection stand for what they stood for before it. -/
lemma Scope.project_narrowed {base : Select} {wide narrow : List String}
    {wideList narrowList : List (String × Expr)} (hnodup : wide.Nodup)
    (hwide : (ofSelectList base).project wide = .ok wideList)
    (hnarrow : (ofSelectList base).project narrow = .ok narrowList)
    (hsub : ∀ n ∈ narrow, n ∈ wide) :
    (ofSelectList { base with columns := wideList }).project narrow = .ok narrowList := by
  obtain ⟨hwideNames, hwideLookup⟩ := project_eq_ok.1 hwide
  obtain ⟨hnarrowNames, hnarrowLookup⟩ := project_eq_ok.1 hnarrow
  refine project_eq_ok.2 ⟨hnarrowNames, fun c hc => ?_⟩
  have hname : c.1 ∈ wideList.map Prod.fst :=
    hwideNames ▸ hsub c.1 (hnarrowNames ▸ List.mem_map_of_mem hc)
  obtain ⟨d, hd, hsame⟩ := List.mem_map.1 hname
  have hvalue : d.2 = c.2 := by
    have hlookup := hwideLookup d hd
    rw [hsame, hnarrowLookup c hc] at hlookup
    exact (Except.ok.inj hlookup).symm
  have hentry : (c.1, c.2) ∈ wideList := by
    rw [← hsame, ← hvalue]
    exact hd
  refine lookup_ofSelectList_of_mem ?_ hentry
  rw [← hwideNames] at hnodup
  exact hnodup

open QueryState

/-- In every query that can be built, a selection by names of columns that an earlier selection by
names has kept succeeds, and it gives what it would have given without the earlier one. -/
theorem narrowing_twice_eq_once {tables : Set TableInfo} {functions : Set FunctionTable}
    {s : QueryState} (h : Reachable tables functions s) {first second : List ColumnExpr}
    {wide narrow : List String} (hfirst : ColumnExpr.namesOf? first = some wide)
    (hsecond : ColumnExpr.namesOf? second = some narrow) (hwide : wide ≠ []) (hnarrow : narrow ≠ [])
    (hknown : ∀ n ∈ wide, n ∈ s.columnNames) (hkept : ∀ n ∈ narrow, n ∈ wide ∨ n ∈ s.groups) :
    ∃ t u v, s.select first = .ok t ∧ t.select second = .ok u ∧ s.select second = .ok v ∧
      u.last = v.last ∧ u.aliases = v.aliases ∧ u.groups = v.groups ∧ u.order = v.order := by
  have hs : s.Anchored := .reachable h
  obtain ⟨⟨base, aliases⟩, hwrap⟩ : ∃ p, wrapIf s.last.distinct s.last s.aliases = p := ⟨_, rfl⟩
  have hrows : base.distinct = false := distinct_of_wrapIf hwrap id
  obtain ⟨wideList, hwideList, ht⟩ := select_names hs hfirst hwide hknown hwrap
  have hnarrowKnown : ∀ n ∈ narrow, n ∈ s.columnNames := by
    intro n hn
    rcases hkept n hn with hn | hn
    · exact hknown n hn
    · exact hs.groups n hn
  obtain ⟨narrowList, hnarrowList, hv⟩ := select_names hs hsecond hnarrow hnarrowKnown hwrap
  have hsub : ∀ n ∈ keptColumns s.groups.toList narrow, n ∈ keptColumns s.groups.toList wide := by
    intro n hn
    rcases mem_keptColumns.1 hn with hn | hn
    · exact mem_keptColumns.2 (Or.inl hn)
    · exact mem_keptColumns.2 (hkept n hn).symm
  have hthrough := Scope.project_narrowed (nodup_keptColumns s.groups.nodup) hwideList hnarrowList
    hsub
  -- The first selection has wrapped what had to be wrapped, so the second one extends it in place.
  have hplain : wrapIf base.distinct { base with columns := wideList } aliases =
      ({ base with columns := wideList }, aliases) := by
    rw [hrows]
    rfl
  obtain ⟨list, hlist, hu⟩ := select_names (hs.select ht) hsecond hnarrow (by
    intro n hn
    have hmem := hsub n (mem_keptColumns.2 (Or.inr hn))
    rw [← (Scope.project_eq_ok.1 hwideList).1] at hmem
    exact hmem) hplain
  have hsame : list = narrowList := Except.ok.inj (hlist.symm.trans hthrough)
  refine ⟨_, _, _, ht, hu, hv, ?_, rfl, rfl, ?_⟩
  · rw [hsame]
    rfl
  · exact filter_orderWithin hsub

/-- Distinct people by group. -/
def distinctPeople : Request where
  collection := "people"
  pipeline := [.distinct [] .empty false, .groupBy [.column "g"] false]

/-- The group is kept by a selection of the number, and it can be selected then. -/
theorem distinctPeople_narrowed : ∃ s t u v,
    distinctPeople.run peopleCatalog (.builtIn .postgres) = .ok s ∧
    (s.last.distinct, s.groups.toList) = (true, ["g"]) ∧
    s.select [.column "x", .literal (.str "x")] = .ok t ∧
    t.select [.index .reference (.literal (.str "g"))] = .ok u ∧
    s.select [.index .reference (.literal (.str "g"))] = .ok v ∧
    u.last = v.last ∧ u.aliases = v.aliases ∧ u.groups = v.groups ∧ u.order = v.order := by
  have hrun : (distinctPeople.run peopleCatalog (.builtIn .postgres)).map (fun s =>
      (s.columnNames, s.last.distinct, s.groups.toList)) = .ok (["g", "x"], true, ["g"]) := by
    decide +kernel
  obtain ⟨s, hs, hfacts⟩ := map_eq_ok.1 hrun
  obtain ⟨hnames, hstate⟩ := Prod.mk.inj hfacts
  have hgroups : s.groups.toList = ["g"] := congrArg Prod.snd hstate
  have hfirst : ColumnExpr.namesOf? [.column "x", .literal (.str "x")] = some ["x", "x"] := by
    decide
  have hsecond : ColumnExpr.namesOf? [.index .reference (.literal (.str "g"))] = some ["g"] := by
    decide
  obtain ⟨t, u, v, ht, hu, hv, hsame⟩ := narrowing_twice_eq_once
    (distinctPeople.run_reachable hs) hfirst hsecond (by decide) (by decide)
    (by rw [hnames]; decide) (by simp [OrderedSet.mem_def, hgroups])
  exact ⟨s, t, u, v, hs, hstate, ht, hu, hv, hsame⟩

end PipelineSql
