import PipelineSql.Proofs.VerbCases

/-!
# Output columns after a verb

The names of the columns that each verb leaves, in order, said once for each verb.
-/

namespace PipelineSql.QueryState

open Sql (Expr Select AliasCounter TableAlias)

variable {s t u : QueryState}

lemma columnNames_wrapIf {needed : Bool} {q base : Select} {aliases aliases' : AliasCounter}
    (h : wrapIf needed q aliases = (base, aliases')) : base.columnNames = q.columnNames := by
  rcases wrapIf_cases h with ⟨_, rfl, _⟩ | ⟨rfl, _⟩
  · rfl
  · exact Select.columnNames_throughSubquery _ _

lemma columnNames_addColumn {name : String} {e : ColumnExpr} {q q' : Select}
    {aliases aliases' : AliasCounter} (h : s.addColumn name e q aliases = .ok (q', aliases')) :
    q'.columnNames = if name ∈ q.columnNames then q.columnNames else q.columnNames ++ [name] := by
  obtain ⟨base, windows, x, hwrap, _, _, rfl⟩ := addColumn_cases h
  rw [← columnNames_wrapIf hwrap]
  exact keys_putEntry _ _ _

lemma mem_columnNames_addColumns {columns : List (String × ColumnExpr)} {q q' : Select}
    {aliases aliases' : AliasCounter} (h : s.addColumns columns q aliases = .ok (q', aliases'))
    {n : String} (hn : n ∈ q.columnNames) : n ∈ q'.columnNames := by
  refine addColumns_induction (motive := fun p _ => n ∈ p.columnNames) ?_ hn h
  intro name e p _ p' _ hp hadd
  rw [columnNames_addColumn hadd]
  split
  · exact hp
  · exact List.mem_append_left _ hp

lemma nodup_columnNames_addColumns {columns : List (String × ColumnExpr)} {q q' : Select}
    {aliases aliases' : AliasCounter} (h : s.addColumns columns q aliases = .ok (q', aliases'))
    (hq : q.columnNames.Nodup) : q'.columnNames.Nodup := by
  refine addColumns_induction (motive := fun p _ => p.columnNames.Nodup) ?_ hq h
  intro name e p _ p' _ hp hadd
  rw [columnNames_addColumn hadd]
  split
  · exact hp
  · rename_i hname
    exact List.nodup_append_comm.1 (List.nodup_cons.2 ⟨hname, hp⟩)

lemma columnNames_select {columns : List ColumnExpr} (h : s.select columns = .ok t) :
    ∃ chosen, t.columnNames = (withGroups chosen s.groups.toList).keys ∧
      t.groups = .ofList (s.groups.toList.map fun g => (outputOf? chosen g).getD g) ∧
      t.order = renameOrder (selectionRenames (withGroups chosen s.groups.toList))
        (s.order.filter fun term => term.target.reads.all fun n =>
          n ∈ (withGroups chosen s.groups.toList).values) := by
  obtain ⟨_, chosen, _, base, _, list, _, _, rfl, _, _, hlist, rfl⟩ := select_cases h
  exact ⟨chosen, map_fst_of_forall₂ hlist, rfl, rfl⟩

lemma columnNames_rename {columns : List (String × ColumnExpr)} (h : s.rename columns = .ok t) :
    ∃ renames, t.columnNames = s.columnNames.map (newName renames) ∧ t.columnNames.Nodup ∧
      t.groups = .ofList (s.groups.toList.map (newName renames)) ∧
      t.order = renameOrder renames s.order := by
  obtain ⟨renames, list, _, rfl, hrepeated, rfl⟩ := rename_cases h
  refine ⟨renames, ?_, (nodup_of_firstRepeated hrepeated).1, rfl, rfl⟩
  simp [pushWith, push, columnNames, Select.columnNames, Function.comp_def]

lemma columnNames_filter {predicates : List ColumnExpr} (h : s.filter predicates = .ok t) :
    (predicates = [] ∧ t = s) ∨
      (t.columnNames = s.orderedColumnNames ∧ t.groups = s.groups ∧ t.order = s.order) := by
  rcases filter_cases h with hsame | ⟨_, _, _, _, _, _, _, list, _, _, _, _, _, _, hlist, rfl⟩
  · exact Or.inl hsame
  · exact Or.inr ⟨(Scope.project_eq_ok.1 hlist).1, rfl, rfl⟩

lemma columnNames_distinct {columns : List ColumnExpr} {computed : List (String × ColumnExpr)}
    {keepAll : Bool} (h : s.distinct columns computed keepAll = .ok t) :
    ∃ (base : QueryState) (names : OrderedSet), t.columnNames = names.toList ∧
      t.groups = base.groups.filter (fun g => g ∈ names) ∧ t.order = [] := by
  obtain ⟨_, base, names, _, _, list, _, _, _, _, hlist, rfl⟩ := distinct_cases h
  exact ⟨base, names, (Scope.project_eq_ok.1 hlist).1, rfl, rfl⟩

lemma columnNames_arrange {terms : List ColumnExpr} (h : s.arrange terms = .ok t) :
    t.columnNames = s.columnNames ∧ t.groups = s.groups := by
  rcases arrange_cases h with rfl | ⟨base, _, _, hwrap, _, rfl⟩
  · exact ⟨rfl, rfl⟩
  · have hnames : base.columnNames = s.columnNames := columnNames_wrapIf hwrap
    exact ⟨hnames, rfl⟩

lemma columnNames_summarize {columns : List (String × ColumnExpr)}
    (h : s.summarize columns = .ok t) :
    t.columnNames = s.groups.toList ++ columns.map Prod.fst := by
  obtain ⟨_, base, _, groups, aggregates, _, rfl, _, _, hgroups, haggregates, rfl⟩ :=
    summarize_cases h
  have hfst : aggregates.map Prod.fst = columns.map Prod.fst := by
    rw [map_fst_of_forall₂ haggregates, List.map_map]
    rfl
  calc (groups ++ aggregates).map Prod.fst
      = groups.map Prod.fst ++ aggregates.map Prod.fst := List.map_append
    _ = s.groups.toList ++ columns.map Prod.fst := by
      rw [(Scope.project_eq_ok.1 hgroups).1, hfst]

/-- A count adds its column after those that are counted by. -/
lemma columnNames_count {columns : List ColumnExpr} {name : Option String} {sort : Bool}
    (h : s.count columns name sort = .ok t) :
    ∃ (groups : OrderedSet) (groupColumns : List (String × Expr)),
      groupColumns.map Prod.fst = groups.toList ∧ (∀ g ∈ s.groups, g ∈ groups) ∧
      t.last.columns =
        groupColumns ++ [(countName groups.toList (name.getD "n"), .countAll)] ∧
      t.last.groupBy = groupColumns.map Prod.snd ∧ t.groups = s.groups ∧ t.order = [] := by
  obtain ⟨_, _, _, counted, _, _, groups, groupColumns, _, _, _, _, _, rfl, hgroups, rfl⟩ :=
    count_cases h
  refine ⟨_, groupColumns, (Scope.project_eq_ok.1 hgroups).1, ?_, rfl, rfl, rfl, rfl⟩
  intro g hg
  exact OrderedSet.mem_extend.2 (Or.inl hg)

/-- The name of a column after a join: a name that both sides have gets an ending. -/
def joinLabel (s t : QueryState) (pairs : List (String × String)) (ending n : String) : String :=
  if clashes s t pairs n = true then n ++ ending else n

lemma joinLabel_of_clashes {pairs : List (String × String)} {ending n : String}
    (h : clashes s t pairs n = true) : joinLabel s t pairs ending n = n ++ ending := if_pos h

lemma joinLabel_of_not_clashes {pairs : List (String × String)} {ending n : String}
    (h : clashes s t pairs n = false) : joinLabel s t pairs ending n = n := by
  simp [joinLabel, h]

lemma columnNames_join {keys : JoinKeys} {kind : JoinKind} (h : s.join t keys kind = .ok u) :
    u.columnNames = s.columnNames.map (joinLabel s t keys.toPairs "_x") ++
      (t.columnNames.filter fun n => !isSharedKey keys.toPairs n).map
        (joinLabel s t keys.toPairs "_y") := by
  obtain ⟨_, _, _, _, _, _, leftList, rightList, _, rfl, _, _, _, _, _, _, hleft, hright, rfl⟩ :=
    join_cases h
  have hl : leftList.map Prod.fst = s.columnNames.map (joinLabel s t keys.toPairs "_x") := by
    refine map_eq_of_forall₂ (hleft.imp ?_)
    rintro n c ⟨x, _, ⟨hshared, y, _, rfl⟩ | ⟨_, rfl⟩⟩
    · exact (joinLabel_of_not_clashes (by simp [clashes, hshared])).symm
    · rfl
  have hr : rightList.map Prod.fst =
      (t.columnNames.filter fun n => !isSharedKey keys.toPairs n).map
        (joinLabel s t keys.toPairs "_y") :=
    map_eq_of_forall₂ (hright.imp fun _ _ hc => hc.1)
  simp only [pushWith, push, columnNames, Select.columnNames, columns_joinStage, List.map_append]
  exact congrArg₂ _ hl hr

/-- A key that is shared stands on both sides of a join that succeeds. -/
lemma mem_columnNames_of_isSharedKey {keys : JoinKeys} {kind : JoinKind}
    (h : s.join t keys kind = .ok u) {n : String} (hn : isSharedKey keys.toPairs n = true) :
    n ∈ s.columnNames ∧ n ∈ t.columnNames := by
  obtain ⟨_, _, _, _, _, condition, _, _, _, rfl, _, _, _, rfl, rfl, hcondition, _, _, rfl⟩ :=
    join_cases h
  obtain ⟨⟨k, k'⟩, hk, hshared⟩ := List.any_eq_true.1 hn
  simp only [Bool.and_eq_true, decide_eq_true_eq] at hshared
  obtain ⟨rfl, rfl⟩ := hshared
  unfold joinCondition at hcondition
  simp only [bind_eq_ok, pure_eq_ok] at hcondition
  obtain ⟨equations, hequations, _⟩ := hcondition
  obtain ⟨_, _, hequation⟩ := exists_of_forall₂ (mapM_eq_ok.1 hequations).flip hk
  simp only [bind_eq_ok] at hequation
  obtain ⟨l, hl, r, hr, _⟩ := hequation
  exact ⟨(Scope.lookup_ofSubquery hl).2, (Scope.lookup_ofSubquery hr).2⟩

end PipelineSql.QueryState
