import PipelineSql.Proofs.GroupsAndOrder

/-!
# Columns under new names

After `select` and `rename` a column stands for what the column that it comes from stood for. The
grouping follows its columns to their new names; only when a selection leaves a grouping column out
and gives its name to another column does the grouping go over to that other column.
-/

namespace PipelineSql

open Sql (Expr Select)

section Entries

variable {α : Type}

/-- Entries that are added to a map win over those of the map. -/
lemma OrderedMap.get?_extend_of_nodup {l : List (String × α)} (hl : (l.map Prod.fst).Nodup)
    {m : OrderedMap α} {n : String} :
    (m.extend l).get? n = (l.lookup n).or (m.get? n) := by
  induction l generalizing m with
  | nil => rfl
  | cons e l ih =>
    obtain ⟨k, v⟩ := e
    rw [List.map_cons, List.nodup_cons] at hl
    have hstep : m.extend ((k, v) :: l) = (m.insert k v).extend l := rfl
    have hinsert : (m.insert k v).get? n = if n = k then some v else m.get? n := lookup_putEntry
    rw [hstep, ih hl.2, hinsert, lookup_cons_eq_ite]
    by_cases hn : n = k
    · subst hn
      have hnone : l.lookup n = none := by
        rw [Option.eq_none_iff_forall_ne_some]
        intro w hw
        have hmem := List.mem_map_of_mem (f := Prod.fst) (mem_of_lookup hw)
        exact hl.1 hmem
      simp [hnone]
    · simp [hn]

lemma OrderedMap.mem_keys_of_get? {m : OrderedMap α} {k : String} {v : α}
    (h : m.get? k = some v) : k ∈ m.keys :=
  List.mem_map_of_mem (mem_of_lookup h)

end Entries

/-- Labels under which a map finds back what they were given to are different. -/
lemma OrderedMap.eq_of_label_eq {m : OrderedMap String} {label : String → String}
    {P : String → Prop} (h : ∀ n, P n → m.get? (label n) = some n) :
    ∀ n, P n → ∀ n', P n' → label n = label n' → n = n' := by
  intro n hn n' hn' hlabel
  have hsame := h n hn
  rw [hlabel, h n' hn'] at hsame
  exact (Option.some.inj hsame).symm

lemma Scope.lookup_ofSelectList_of_mem {q : Select} (hq : q.columnNames.Nodup) {n : String}
    {x : Expr} (h : (n, x) ∈ q.columns) : (ofSelectList q).lookup n = .ok x := by
  rw [lookup_eq_ok, ofSelectList, OrderedMap.get?, OrderedMap.entries_ofList_of_nodup hq]
  exact lookup_of_mem hq h

section Selections

variable {selection : OrderedMap String} {groups : List String} {k source : String}

lemma outputOf?_eq_none : outputOf? selection source = none ↔ source ∉ selection.values := by
  rw [outputOf?, Option.map_eq_none_iff, List.find?_eq_none, OrderedMap.values, List.mem_map]
  constructor
  · rintro h ⟨e, he, rfl⟩
    exact h e he (by simp)
  · intro h e he hsource
    exact h ⟨e, he, by simpa using hsource⟩

lemma get?_of_outputOf? (h : outputOf? selection source = some k) :
    selection.get? k = some source := by
  obtain ⟨e, he, rfl⟩ := Option.map_eq_some_iff.1 h
  obtain rfl : e.2 = source := by simpa using List.find?_some he
  exact lookup_of_mem selection.nodup (List.mem_of_find?_eq_some he)

/-- A grouping column that a selection lacks comes from itself, unless its name is taken. -/
lemma get?_withGroups : (withGroups selection groups).get? k = some source ↔
    selection.get? k = some source ∨
      k ∉ selection.keys ∧ k ∈ groups ∧ k ∉ selection.values ∧ source = k := by
  have hmissing : (OrderedMap.ofList ((groups.filter fun g => (outputOf? selection g).isNone).map
      fun g => (g, g))).get? k = some source ↔ k ∈ groups ∧ k ∉ selection.values ∧ source = k := by
    constructor
    · intro h
      obtain ⟨g, hg, he⟩ := List.mem_map.1 (OrderedMap.mem_of_mem_ofList (mem_of_lookup h))
      cases he
      obtain ⟨hmem, hnone⟩ := List.mem_filter.1 hg
      exact ⟨hmem, outputOf?_eq_none.1 (Option.isNone_iff_eq_none.1 hnone), rfl⟩
    · rintro ⟨hmem, hvalues, rfl⟩
      have hkey : source ∈ (OrderedMap.ofList ((groups.filter fun g =>
          (outputOf? selection g).isNone).map fun g => (g, g))).keys := by
        rw [OrderedMap.mem_keys_ofList]
        simpa [outputOf?_eq_none] using ⟨hmem, hvalues⟩
      obtain ⟨v, hv⟩ := exists_lookup hkey
      obtain ⟨g, _, he⟩ := List.mem_map.1 (OrderedMap.mem_of_mem_ofList (mem_of_lookup hv))
      cases he
      exact hv
  rw [withGroups, OrderedMap.get?_extend_of_nodup selection.nodup, Option.or_eq_some_iff, hmissing]
  refine or_congr Iff.rfl (and_congr_left fun _ => ?_)
  rw [← not_iff_not, not_not, ← Ne, Option.ne_none_iff_exists']
  constructor
  · rintro ⟨v, hv⟩
    exact OrderedMap.mem_keys_of_get? hv
  · exact exists_lookup

lemma OrderedMap.mem_values {α : Type} {m : OrderedMap α} {v : α} :
    v ∈ m.values ↔ ∃ k, m.get? k = some v := by
  constructor
  · intro h
    obtain ⟨⟨k, v⟩, he, rfl⟩ := List.mem_map.1 h
    exact ⟨k, lookup_of_mem m.nodup he⟩
  · rintro ⟨k, hk⟩
    exact List.mem_map.2 ⟨(k, v), mem_of_lookup hk, rfl⟩

/-- A grouping column is found under its first output name, or under its own. -/
lemma get?_groupLabel {g : String} (hg : g ∈ groups)
    (h : g ∈ selection.keys → g ∈ selection.values) :
    (withGroups selection groups).get? ((outputOf? selection g).getD g) = some g := by
  rw [get?_withGroups]
  cases hout : outputOf? selection g with
  | none =>
    have hvalues := outputOf?_eq_none.1 hout
    exact Or.inr ⟨fun hkeys => hvalues (h hkeys), hg, hvalues, rfl⟩
  | some k => exact Or.inl (get?_of_outputOf? hout)

/-- A grouping column that is left out and whose name is taken cannot be added again. -/
lemma not_mem_values_withGroups {g : String} (hkeys : g ∈ selection.keys)
    (hvalues : g ∉ selection.values) : g ∉ (withGroups selection groups).values := by
  intro hmem
  obtain ⟨k, hk⟩ := OrderedMap.mem_values.1 hmem
  rcases get?_withGroups.1 hk with hk | ⟨hfree, _, _, rfl⟩
  · exact hvalues (OrderedMap.mem_values.2 ⟨k, hk⟩)
  · exact hfree hkeys

end Selections

namespace QueryState

variable {s t : QueryState}

/-- The columns that the arguments of `select` ask for, by output name; grouping columns are not
added yet. -/
def chosen (s : QueryState) (columns : List ColumnExpr) : Except Error (OrderedMap String) :=
  (columns.mapM fun e => Selector.parse s.columnNames e.shape).map
    (Selector.selection s.columnNames)

/-- What the columns of a query stand for in the statement that selects from them. -/
def selectScope (s : QueryState) : Scope :=
  if s.last.distinct then .ofSubquery s.last ⟨"subquery", s.aliases.next⟩ else .ofSelectList s.last

/-- Every output column of a selection stands for what its source stands for. -/
lemma lookup_select {columns : List ColumnExpr} (h : s.select columns = .ok t) :
    ∃ chosen, s.chosen columns = .ok chosen ∧
      t.groups = .ofList (s.groups.toList.map fun g => (outputOf? chosen g).getD g) ∧
      t.order = renameOrder (selectionRenames (withGroups chosen s.groups.toList))
        (s.order.filter fun term => term.target.reads.all fun n =>
          n ∈ (withGroups chosen s.groups.toList).values) ∧
      ∀ k source, (withGroups chosen s.groups.toList).get? k = some source →
        ∃ x, s.selectScope.lookup source = .ok x ∧
          (Scope.ofSelectList t.last).lookup k = .ok x := by
  obtain ⟨selectors, chosen, selection, base, aliases, list, hparse, rfl, rfl, _, hwrap, hlist,
    rfl⟩ := select_cases h
  have hscope : Scope.ofSelectList base = s.selectScope := by
    unfold selectScope
    unfold wrapIf at hwrap
    split at hwrap
    · cases hwrap
      rw [if_pos ‹_›]
      rfl
    · cases hwrap
      rw [if_neg ‹_›]
  refine ⟨_, map_eq_ok.2 ⟨selectors, hparse, rfl⟩, rfl, rfl, ?_⟩
  intro k source hk
  obtain ⟨c, hc, hlabel, hlookup⟩ := exists_of_forall₂ hlist.flip (mem_of_lookup hk)
  refine ⟨c.2, hscope ▸ hlookup, ?_⟩
  have hnames : list.map Prod.fst = _ := map_fst_of_forall₂ hlist
  have hnodup : (list.map Prod.fst).Nodup := hnames ▸ OrderedMap.nodup _
  have hmem : (k, c.2) ∈ list := by
    have he : c = (k, c.2) := Prod.ext hlabel rfl
    exact he ▸ hc
  refine Scope.lookup_ofSelectList_of_mem ?_ hmem
  exact hnodup

/-- A renamed column stands for what it stood for. -/
lemma lookup_rename {columns : List (String × ColumnExpr)} (h : s.rename columns = .ok t) :
    ∃ renames, parseRenames s.columnNames columns = .ok renames ∧
      t.groups = .ofList (s.groups.toList.map (newName renames)) ∧
      t.order = renameOrder renames s.order ∧
      (s.columnNames.map (newName renames)).Nodup ∧
      ∀ n ∈ s.columnNames, ∃ x, (Scope.ofSelectList s.last).lookup n = .ok x ∧
        (Scope.ofSelectList t.last).lookup (newName renames n) = .ok x := by
  obtain ⟨renames, list, hparse, rfl, hrepeated, rfl⟩ := rename_cases h
  have hnodup := (nodup_of_firstRepeated hrepeated).1
  refine ⟨renames, hparse, rfl, rfl, ?_, ?_⟩
  · simpa [columnNames, Select.columnNames, Function.comp_def] using hnodup
  intro n hn
  obtain ⟨x, hget⟩ := exists_lookup (Scope.mem_names_ofSelectList.2 hn)
  have hx : (Scope.ofSelectList s.last).lookup n = .ok x := Scope.lookup_eq_ok.2 hget
  refine ⟨x, hx, Scope.lookup_ofSelectList_of_mem ?_ ?_⟩
  · exact hnodup
  · exact List.mem_map.2 ⟨(n, x), Scope.mem_of_lookup_ofSelectList hx, rfl⟩

/-- A query keeps the grouping of another under labels: the same columns in the same order, each of
which stands for what it stood for in a scope. -/
structure KeepsGrouping (s t : QueryState) (scope : Scope) (label : String → String) : Prop where
  groups : t.groups.toList = s.groups.toList.map label
  stands : ∀ g ∈ s.groups, ∃ x, scope.lookup g = .ok x ∧
    (Scope.ofSelectList t.last).lookup (label g) = .ok x

namespace KeepsGrouping

variable {scope : Scope} {label : String → String}

lemma of_injective (hgroups : t.groups = .ofList (s.groups.toList.map label))
    (hinj : ∀ g ∈ s.groups, ∀ g' ∈ s.groups, label g = label g' → g = g')
    (hstands : ∀ g ∈ s.groups, ∃ x, scope.lookup g = .ok x ∧
      (Scope.ofSelectList t.last).lookup (label g) = .ok x) : s.KeepsGrouping t scope label where
  groups := by
    rw [hgroups]
    refine OrderedSet.toList_extend_of_nodup ?_
    exact List.Nodup.map_on hinj s.groups.nodup
  stands := hstands

lemma rename {columns : List (String × ColumnExpr)} (hs : s.Anchored)
    (h : s.rename columns = .ok t) : ∃ renames, parseRenames s.columnNames columns = .ok renames ∧
      s.KeepsGrouping t (.ofSelectList s.last) (newName renames) := by
  obtain ⟨renames, hparse, hgroups, _, hnodup, hstands⟩ := lookup_rename h
  refine ⟨renames, hparse, of_injective hgroups ?_ fun g hg => hstands g (hs.groups g hg)⟩
  intro g hg g' hg'
  exact List.inj_on_of_nodup_map hnodup (hs.groups g hg) (hs.groups g' hg')

end KeepsGrouping

end QueryState

open QueryState

/-- In every query that can be built, `rename` keeps the grouping. So does `select`, as long as no
grouping column is left out while its name goes to another column; where that happens, the
grouping column is lost, and the query is grouped by the other column instead. -/
theorem relabelling_keeps_grouping {tables : Set TableInfo} {functions : Set FunctionTable}
    {s : QueryState} (h : Reachable tables functions s) :
    (∀ columns t, s.rename columns = .ok t →
      ∃ renames, parseRenames s.columnNames columns = .ok renames ∧
        s.KeepsGrouping t (.ofSelectList s.last) (newName renames)) ∧
    ∀ columns t, s.select columns = .ok t → ∃ chosen, s.chosen columns = .ok chosen ∧
      ((∀ g ∈ s.groups, g ∈ chosen.keys → g ∈ chosen.values) →
        s.KeepsGrouping t s.selectScope fun g => (outputOf? chosen g).getD g) ∧
      ∀ g ∈ s.groups, g ∈ chosen.keys → g ∉ chosen.values →
        g ∉ (withGroups chosen s.groups.toList).values ∧ g ∈ t.groups ∧
          ∃ other x, other ≠ g ∧ chosen.get? g = some other ∧
            s.selectScope.lookup other = .ok x ∧ (Scope.ofSelectList t.last).lookup g = .ok x := by
  refine ⟨fun columns t hrename => KeepsGrouping.rename (.reachable h) hrename, ?_⟩
  intro columns t hselect
  obtain ⟨chosen, hchosen, hgroups, _, hstands⟩ := lookup_select hselect
  refine ⟨chosen, hchosen, ?_, ?_⟩
  · intro hkept
    have hsource : ∀ g ∈ s.groups, (withGroups chosen s.groups.toList).get?
        ((outputOf? chosen g).getD g) = some g := fun g hg => get?_groupLabel hg (hkept g hg)
    exact .of_injective hgroups (OrderedMap.eq_of_label_eq hsource) fun g hg =>
      hstands _ g (hsource g hg)
  · intro g hg hkeys hvalues
    obtain ⟨other, hother⟩ := exists_lookup hkeys
    obtain ⟨x, hx, hlookup⟩ := hstands g other (get?_withGroups.2 (Or.inl hother))
    refine ⟨not_mem_values_withGroups hkeys hvalues, ?_, other, x, ?_, hother, hx, hlookup⟩
    · rw [hgroups]
      refine OrderedSet.mem_ofList.2 (List.mem_map.2 ⟨g, hg, ?_⟩)
      rw [outputOf?_eq_none.2 hvalues]
      rfl
    · rintro rfl
      exact hvalues (OrderedMap.mem_values.2 ⟨_, hother⟩)

/-- People by group. -/
def groupedPeople : Request where
  collection := "people"
  pipeline := [.groupBy [.column "g"] false]

/-- The groups move to another name, and their own goes to the numbers. -/
theorem groupedPeople_grouped_under_new_name : ∃ s t,
    groupedPeople.run peopleCatalog (.builtIn .postgres) = .ok s ∧
    s.select [.call .equal [.column "team", .column "g"] [],
      .call .equal [.column "g", .column "x"] []] = .ok t ∧
    s.groups.toList = ["g"] ∧ t.groups.toList = ["team"] ∧
    ∃ x, s.selectScope.lookup "g" = .ok x ∧
      (Scope.ofSelectList t.last).lookup "team" = .ok x := by
  have hrun : (groupedPeople.run peopleCatalog (.builtIn .postgres)).map (fun s =>
      (s.groups.toList,
        (s.chosen [.call .equal [.column "team", .column "g"] [],
          .call .equal [.column "g", .column "x"] []]).map OrderedMap.entries,
        (s.select [.call .equal [.column "team", .column "g"] [],
          .call .equal [.column "g", .column "x"] []]).isOk)) =
      .ok (["g"], .ok [("team", "g"), ("g", "x")], true) := by decide +kernel
  obtain ⟨s, hs, hfacts⟩ := map_eq_ok.1 hrun
  simp only [Prod.mk.injEq] at hfacts
  obtain ⟨hgroups, hentries, hok⟩ := hfacts
  obtain ⟨t, ht⟩ := exists_eq_ok hok
  obtain ⟨chosen, hchosen, hkeeps, _⟩ :=
    (relabelling_keeps_grouping (groupedPeople.run_reachable hs)).2 _ t ht
  obtain ⟨_, hchosen', hchosenEntries⟩ := map_eq_ok.1 hentries
  rw [hchosen] at hchosen'
  cases hchosen'
  have hlabel : (outputOf? chosen "g").getD "g" = "team" := by
    rw [outputOf?, hchosenEntries]
    decide
  have hgrouping := hkeeps (by
    intro g hg _
    rw [OrderedSet.mem_def, hgroups, List.mem_singleton] at hg
    rw [hg, OrderedMap.values, hchosenEntries]
    decide)
  refine ⟨s, t, hs, ht, hgroups, ?_, ?_⟩
  · rw [hgrouping.groups, hgroups, List.map_singleton, hlabel]
  · have hstands := hgrouping.stands "g" (by rw [OrderedSet.mem_def, hgroups]; simp)
    rwa [hlabel] at hstands

/-- When the numbers take the name of the groups, people are grouped by their number. -/
theorem groupedPeople_regrouped_by_select : ∃ s t,
    groupedPeople.run peopleCatalog (.builtIn .postgres) = .ok s ∧ s.last.distinct = false ∧
    s.select [.call .equal [.column "g", .column "x"] []] = .ok t ∧
    ∀ label, ¬s.KeepsGrouping t (.ofSelectList s.last) label := by
  have hrun : (groupedPeople.run peopleCatalog (.builtIn .postgres)).map (fun s =>
      (s.last.distinct, s.groups.toList,
        ((Scope.ofSelectList s.last).lookup "g").toOption.any (Expr.exposes "g"),
        (s.select [.call .equal [.column "g", .column "x"] []]).map fun t => (t.groups.toList,
          ((Scope.ofSelectList t.last).lookup "g").toOption.any (Expr.exposes "g")))) =
      .ok (false, ["g"], true, .ok (["g"], false)) := by decide +kernel
  obtain ⟨s, hs, hfacts⟩ := map_eq_ok.1 hrun
  simp only [Prod.mk.injEq] at hfacts
  obtain ⟨hdistinct, hgroups, hbefore, hselect⟩ := hfacts
  obtain ⟨t, ht, hafter⟩ := map_eq_ok.1 hselect
  simp only [Prod.mk.injEq] at hafter
  refine ⟨s, t, hs, hdistinct, ht, fun label hkeeps => ?_⟩
  have hlabel : label "g" = "g" := by
    have hnames := hkeeps.groups
    rw [hafter.1, hgroups] at hnames
    exact (List.singleton_inj.1 hnames).symm
  obtain ⟨x, hx, hx'⟩ := hkeeps.stands "g" (by rw [OrderedSet.mem_def, hgroups]; simp)
  rw [hx] at hbefore
  rw [hlabel] at hx'
  rw [hx'] at hafter
  have hdiffer : true = false := hbefore.symm.trans hafter.2
  cases hdiffer

end PipelineSql
