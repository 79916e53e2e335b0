import Mathlib.Data.List.Perm.Subperm
import PipelineSql.Proofs.ColumnNames
import PipelineSql.Proofs.Reachability

/-!
# When output columns are ambiguous

Two columns get one name in two ways only: an aggregate is named like a group, or an ending makes
a clashing name of a join equal to another one. Whatever else a pipeline does, its columns stay
apart.
-/

namespace PipelineSql

open Sql (Expr Select)

section Fresh

variable {taken : List String}

/-- Among distinct candidates, one more than there are taken names, one is free. -/
lemma firstFree_not_mem {name : Nat → String} (hname : Function.Injective name) :
    firstFree taken name ∉ taken := by
  unfold firstFree
  cases hfind : ((List.range (taken.length + 1)).map name).find? fun n => decide (n ∉ taken) with
  | some n => simpa using List.find?_some hfind
  | none =>
    exfalso
    have hsubset : (List.range (taken.length + 1)).map name ⊆ taken := by
      intro n hn
      simpa using List.find?_eq_none.1 hfind n hn
    have hnodup : ((List.range (taken.length + 1)).map name).Nodup :=
      List.nodup_range.map hname
    have hlength := (List.subperm_of_subset hnodup hsubset).length_le
    rw [List.length_map, List.length_range] at hlength
    omega

lemma append_replicate_injective (name : String) (c : Char) :
    Function.Injective fun i => name ++ String.ofList (List.replicate i c) := by
  intro i j hij
  have hlength := congrArg String.length hij
  simpa using hlength

lemma QueryState.countName_not_mem (name : String) : countName taken name ∉ taken :=
  firstFree_not_mem (append_replicate_injective name 'n')

end Fresh

lemma append_ending_inj {n m a b : String} (h : n ++ a = m ++ b) (hlength : a.length = b.length) :
    n = m ∧ a = b := by
  have hchars : n.toList ++ a.toList = m.toList ++ b.toList := by
    rw [← String.toList_append, h, String.toList_append]
  have hlengths : a.toList.length = b.toList.length := by
    rwa [String.length_toList, String.length_toList]
  obtain ⟨hn, ha⟩ := List.append_inj' hchars hlengths
  exact ⟨String.toList_injective hn, String.toList_injective ha⟩

namespace QueryState

variable {s t u : QueryState}

/-- No new column of a summary is named like a group. -/
def SummarySeparates (s : QueryState) (columns : OrderedMap ColumnExpr) : Prop :=
  ∀ n ∈ columns.keys, n ∉ s.groups

instance (columns : OrderedMap ColumnExpr) : Decidable (s.SummarySeparates columns) :=
  inferInstanceAs (Decidable (∀ n ∈ columns.keys, n ∉ s.groups))

/-- No column of a join is named like a clashing one with an ending. -/
def JoinSeparates (s t : QueryState) (pairs : List (String × String)) : Prop :=
  ∀ c ∈ s.columnNames, clashes s t pairs c = true →
    ∀ n ∈ s.columnNames ++ t.columnNames, clashes s t pairs n = false →
      n ≠ c ++ "_x" ∧ n ≠ c ++ "_y"

instance (pairs : List (String × String)) : Decidable (s.JoinSeparates t pairs) :=
  inferInstanceAs (Decidable (∀ c ∈ s.columnNames, clashes s t pairs c = true →
    ∀ n ∈ s.columnNames ++ t.columnNames, clashes s t pairs n = false →
      n ≠ c ++ "_x" ∧ n ≠ c ++ "_y"))

section Joins

variable {pairs : List (String × String)}

lemma clashes_eq_true {n : String} : clashes s t pairs n = true ↔
    n ∈ s.columnNames ∧ n ∈ t.columnNames ∧ isSharedKey pairs n = false := by
  simp [clashes, and_assoc]

/-- Columns of one side keep apart. -/
lemma joinLabel_inj {ending n m : String}
    (hfree : ∀ c, clashes s t pairs c = true → ∀ k ∈ [n, m], clashes s t pairs k = false →
      k ≠ c ++ ending)
    (h : joinLabel s t pairs ending n = joinLabel s t pairs ending m) : n = m := by
  cases hn : clashes s t pairs n with
  | true =>
    rw [joinLabel_of_clashes hn] at h
    cases hm : clashes s t pairs m with
    | true =>
      rw [joinLabel_of_clashes hm] at h
      exact (append_ending_inj h rfl).1
    | false =>
      rw [joinLabel_of_not_clashes hm] at h
      exact absurd h.symm (hfree n hn m (by simp) hm)
  | false =>
    rw [joinLabel_of_not_clashes hn] at h
    cases hm : clashes s t pairs m with
    | true =>
      rw [joinLabel_of_clashes hm] at h
      exact absurd h (hfree m hm n (by simp) hn)
    | false => rwa [joinLabel_of_not_clashes hm] at h

/-- Columns of different sides keep apart. -/
lemma JoinSeparates.joinLabel_ne (hsep : s.JoinSeparates t pairs) {n m : String}
    (hn : n ∈ s.columnNames) (hm : m ∈ t.columnNames) (hshared : isSharedKey pairs m = false) :
    joinLabel s t pairs "_x" n ≠ joinLabel s t pairs "_y" m := by
  intro h
  cases hcn : clashes s t pairs n with
  | true =>
    rw [joinLabel_of_clashes hcn] at h
    cases hcm : clashes s t pairs m with
    | true =>
      rw [joinLabel_of_clashes hcm] at h
      exact absurd (append_ending_inj h (by decide)).2 (by decide)
    | false =>
      rw [joinLabel_of_not_clashes hcm] at h
      exact (hsep n hn hcn m (List.mem_append_right _ hm) hcm).1 h.symm
  | false =>
    rw [joinLabel_of_not_clashes hcn] at h
    cases hcm : clashes s t pairs m with
    | true =>
      rw [joinLabel_of_clashes hcm] at h
      have hms : m ∈ s.columnNames := (clashes_eq_true.1 hcm).1
      exact (hsep m hms hcm n (List.mem_append_left _ hn) hcn).2 h
    | false =>
      -- A name that both sides have and that is no shared key does clash.
      rw [joinLabel_of_not_clashes hcm] at h
      subst h
      rw [clashes_eq_true.2 ⟨hn, hm, hshared⟩] at hcn
      cases hcn

lemma JoinSeparates.nodup {keys : JoinKeys} {kind : JoinKind}
    (hsep : s.JoinSeparates t keys.toPairs) (hs : s.columnNames.Nodup) (ht : t.columnNames.Nodup)
    (h : s.join t keys kind = .ok u) : u.columnNames.Nodup := by
  rw [columnNames_join h, List.nodup_append]
  refine ⟨?_, ?_, ?_⟩
  · refine hs.map_on ?_
    intro n hn m hm hlabel
    refine joinLabel_inj ?_ hlabel
    intro c hc k hk hfree
    have hks : k ∈ s.columnNames := by
      rcases List.mem_pair.1 hk with rfl | rfl <;> assumption
    exact (hsep c (clashes_eq_true.1 hc).1 hc k (List.mem_append_left _ hks) hfree).1
  · refine (ht.filter _).map_on ?_
    intro n hn m hm hlabel
    refine joinLabel_inj ?_ hlabel
    intro c hc k hk hfree
    have hkt : k ∈ t.columnNames := by
      rcases List.mem_pair.1 hk with rfl | rfl
      · exact List.mem_of_mem_filter hn
      · exact List.mem_of_mem_filter hm
    exact (hsep c (clashes_eq_true.1 hc).1 hc k (List.mem_append_right _ hkt) hfree).2
  · intro a ha b hb
    obtain ⟨n, hn, rfl⟩ := List.mem_map.1 ha
    obtain ⟨m, hm, rfl⟩ := List.mem_map.1 hb
    obtain ⟨hmt, hshared⟩ := List.mem_filter.1 hm
    exact hsep.joinLabel_ne hn hmt (by simpa using hshared)

/-- Where an ending makes a clashing name equal to another one, the name stands twice. -/
lemma joinSeparates_of_nodup {keys : JoinKeys} {kind : JoinKind}
    (h : s.join t keys kind = .ok u) (hu : u.columnNames.Nodup) :
    s.JoinSeparates t keys.toPairs := by
  rw [columnNames_join h, List.nodup_append] at hu
  obtain ⟨hleft, hright, hapart⟩ := hu
  intro c hcs hc n hn hfree
  obtain ⟨_, hct, hcshared⟩ := clashes_eq_true.1 hc
  have hne : n ≠ c := by
    rintro rfl
    rw [hc] at hfree
    cases hfree
  have hcright : c ∈ t.columnNames.filter fun n => !isSharedKey keys.toPairs n :=
    List.mem_filter.2 ⟨hct, by simp [hcshared]⟩
  have hx : joinLabel s t keys.toPairs "_x" c = c ++ "_x" := joinLabel_of_clashes hc
  have hy : joinLabel s t keys.toPairs "_y" c = c ++ "_y" := joinLabel_of_clashes hc
  have hsame : ∀ ending, joinLabel s t keys.toPairs ending n = n := fun _ =>
    joinLabel_of_not_clashes hfree
  -- A shared key stands on both sides, so its column is on the left.
  have hside : n ∈ s.columnNames ∨
      n ∈ t.columnNames.filter fun n => !isSharedKey keys.toPairs n := by
    rcases List.mem_append.1 hn with hns | hnt
    · exact Or.inl hns
    · cases hshared : isSharedKey keys.toPairs n with
      | true => exact Or.inl (mem_columnNames_of_isSharedKey h hshared).1
      | false => exact Or.inr (List.mem_filter.2 ⟨hnt, by simp [hshared]⟩)
  rcases hside with hns | hnt
  · constructor
    · intro heq
      exact hne (List.inj_on_of_nodup_map hleft hns hcs (by rw [hsame, hx, heq]))
    · intro heq
      refine hapart n ?_ (c ++ "_y") ?_ heq
      · exact List.mem_map.2 ⟨n, hns, hsame _⟩
      · exact List.mem_map.2 ⟨c, hcright, hy⟩
  · constructor
    · intro heq
      refine hapart (c ++ "_x") ?_ n ?_ heq.symm
      · exact List.mem_map.2 ⟨c, hcs, hx⟩
      · exact List.mem_map.2 ⟨n, hnt, hsame _⟩
    · intro heq
      exact hne (List.inj_on_of_nodup_map hright hnt hcright (by rw [hsame, hy, heq]))

end Joins

lemma nodup_summarize_iff {columns : OrderedMap ColumnExpr}
    (h : s.summarize columns.entries = .ok t) :
    t.columnNames.Nodup ↔ s.SummarySeparates columns := by
  rw [columnNames_summarize h, List.nodup_append]
  constructor
  · rintro ⟨_, _, hapart⟩ n hn hgroup
    exact hapart n hgroup n hn rfl
  · intro hsep
    refine ⟨s.groups.nodup, columns.nodup, ?_⟩
    rintro g hg n hn rfl
    exact hsep g hn hg

lemma nodup_select {columns : List ColumnExpr} (h : s.select columns = .ok t) :
    t.columnNames.Nodup := by
  obtain ⟨chosen, hnames, _⟩ := columnNames_select h
  rw [hnames]
  exact OrderedMap.keys_nodup _

lemma nodup_filter {predicates : List ColumnExpr} (h : s.filter predicates = .ok t) :
    (predicates = [] ∧ t = s) ∨ t.columnNames.Nodup := by
  rcases columnNames_filter h with hsame | ⟨hnames, _⟩
  · exact Or.inl hsame
  · right
    rw [hnames]
    exact OrderedSet.nodup _

lemma nodup_distinct {columns : List ColumnExpr} {computed : List (String × ColumnExpr)}
    {keepAll : Bool} (h : s.distinct columns computed keepAll = .ok t) : t.columnNames.Nodup := by
  obtain ⟨_, names, hnames, _⟩ := columnNames_distinct h
  rw [hnames]
  exact names.nodup

lemma nodup_mutate {columns : List (String × ColumnExpr)} (hs : s.columnNames.Nodup)
    (h : s.mutate columns = .ok t) : t.columnNames.Nodup := by
  rcases mutate_cases h with ⟨_, rfl⟩ | ⟨q, aliases, hadd, rfl⟩
  · exact hs
  · exact nodup_columnNames_addColumns hadd hs

lemma count_separates {columns : List ColumnExpr} {name : Option String} {sort : Bool}
    (h : s.count columns name sort = .ok t) :
    ∃ (counted : List (String × Expr)) (total : String),
      t.last.columns = counted ++ [(total, .countAll)] ∧ t.last.groupBy = counted.map Prod.snd ∧
      (counted.map Prod.fst).Nodup ∧ total ∉ counted.map Prod.fst := by
  obtain ⟨groups, counted, hfst, _, hcolumns, hgroupBy, _⟩ := columnNames_count h
  refine ⟨counted, _, hcolumns, hgroupBy, ?_, ?_⟩
  · rw [hfst]
    exact groups.nodup
  · rw [hfst]
    exact countName_not_mem _

lemma nodup_count {columns : List ColumnExpr} {name : Option String} {sort : Bool}
    (h : s.count columns name sort = .ok t) : t.columnNames.Nodup := by
  obtain ⟨counted, total, hcolumns, _, hnodup, htotal⟩ := count_separates h
  rw [columnNames, Select.columnNames, hcolumns, List.map_append]
  exact List.nodup_append_comm.1 (List.nodup_cons.2 ⟨htotal, hnodup⟩)

end QueryState

open QueryState

section States

variable (catalog : Catalog) (functions : FunctionTable)

mutual

/-- The queries that a request goes through until a verb fails, those of right sides included. -/
def Request.states : Request → List QueryState
  | ⟨collection, pipeline⟩ =>
    match catalog.table? collection with
    | some table => pipelineStates (.ofTable functions collection table) pipeline
    | none => []

def pipelineStates (s : QueryState) : List Verb → List QueryState
  | [] => [s]
  | v :: vs => s :: v.rightStates ++
    match v.run catalog functions s with
    | .ok t => pipelineStates t vs
    | .error _ => []

def Verb.rightStates : Verb → List QueryState
  | .join right _ _ => right.states
  | _ => []

end

mutual

/-- Whether all summaries and all joins of a request keep their columns apart. -/
def Request.separates : Request → Bool
  | ⟨collection, pipeline⟩ =>
    match catalog.table? collection with
    | some table => pipelineSeparates (.ofTable functions collection table) pipeline
    | none => true

def pipelineSeparates (s : QueryState) : List Verb → Bool
  | [] => true
  | v :: vs => v.separates s &&
    match v.run catalog functions s with
    | .ok t => pipelineSeparates t vs
    | .error _ => true

def Verb.separates (s : QueryState) : Verb → Bool
  | .summarize columns => decide (s.SummarySeparates columns)
  | .join right on _ => right.separates &&
    match right.run catalog functions with
    | .ok t => decide (s.JoinSeparates t on.toPairs)
    | .error _ => true
  | _ => true

end

end States

section Runs

variable {catalog : Catalog} {functions : FunctionTable}

lemma mem_pipelineStates {verbs : List Verb} {s t : QueryState}
    (h : runPipeline catalog functions s verbs = .ok t) :
    t ∈ pipelineStates catalog functions s verbs := by
  induction verbs generalizing s with
  | nil =>
    cases h
    exact List.mem_singleton_self _
  | cons v vs ih =>
    simp only [runPipeline, bind_eq_ok] at h
    obtain ⟨u, hu, hrest⟩ := h
    rw [pipelineStates, hu]
    exact List.mem_append_right _ (ih hrest)

lemma Request.mem_states {r : Request} {s : QueryState} (h : r.run catalog functions = .ok s) :
    s ∈ r.states catalog functions := by
  obtain ⟨collection, pipeline⟩ := r
  rw [Request.run] at h
  rw [Request.states]
  cases htable : catalog.table? collection with
  | some table =>
    rw [htable] at h
    exact mem_pipelineStates h
  | none =>
    rw [htable] at h
    cases h

/-- One verb that keeps its columns apart keeps names distinct. -/
lemma Verb.nodup_run {v : Verb} {s t : QueryState} (hs : s.columnNames.Nodup)
    (hright : ∀ u ∈ v.rightStates catalog functions, u.columnNames.Nodup)
    (hsep : v.separates catalog functions s = true) (h : v.run catalog functions s = .ok t) :
    t.columnNames.Nodup := by
  cases v with
  | select columns => exact nodup_select h
  | filter predicates =>
    rcases nodup_filter h with ⟨_, rfl⟩ | hnodup
    · exact hs
    · exact hnodup
  | mutate columns => exact nodup_mutate hs h
  | arrange terms =>
    rw [(columnNames_arrange h).1]
    exact hs
  | summarize columns => exact (nodup_summarize_iff h).2 (of_decide_eq_true hsep)
  | count columns name sort => exact nodup_count h
  | groupBy columns add =>
    obtain ⟨groups, rfl⟩ := groupBy_cases h
    exact hs
  | ungroup =>
    cases h
    exact hs
  | join right on how =>
    simp only [Verb.run, bind_eq_ok] at h
    obtain ⟨u, hu, hjoin⟩ := h
    rw [Verb.separates, hu, Bool.and_eq_true] at hsep
    exact (of_decide_eq_true hsep.2 : s.JoinSeparates u on.toPairs).nodup hs
      (hright u (Request.mem_states hu)) hjoin
  | rename columns =>
    obtain ⟨_, _, hnodup, _⟩ := columnNames_rename h
    exact hnodup
  | distinct columns computed keepAll => exact nodup_distinct h
  | head n =>
    cases h
    exact hs

lemma nodup_ofTable (collection : String) (table : TableInfo) :
    (ofTable functions collection table).columnNames.Nodup := by
  have hnames : (ofTable functions collection table).columnNames = table.columns.keys := by
    simp [ofTable, columnNames, Select.columnNames, OrderedMap.keys, Function.comp_def]
  rw [hnames]
  exact table.columns.keys_nodup

mutual

theorem Request.nodup_states : ∀ (r : Request), r.separates catalog functions = true →
    ∀ s ∈ r.states catalog functions, s.columnNames.Nodup
  | ⟨collection, pipeline⟩, hsep, s, hs => by
    rw [Request.separates] at hsep
    rw [Request.states] at hs
    cases htable : catalog.table? collection with
    | some table =>
      rw [htable] at hsep hs
      exact nodup_pipelineStates pipeline (nodup_ofTable collection table) hsep s hs
    | none =>
      rw [htable] at hs
      cases hs

theorem nodup_pipelineStates : ∀ (verbs : List Verb) {s : QueryState}, s.columnNames.Nodup →
    pipelineSeparates catalog functions s verbs = true →
    ∀ t ∈ pipelineStates catalog functions s verbs, t.columnNames.Nodup
  | [], s, hs, _, t, ht => by
    rw [pipelineStates, List.mem_singleton] at ht
    exact ht ▸ hs
  | v :: vs, s, hs, hsep, t, ht => by
    rw [pipelineSeparates, Bool.and_eq_true] at hsep
    obtain ⟨hv, hvs⟩ := hsep
    rw [pipelineStates, List.cons_append, List.mem_cons, List.mem_append] at ht
    rcases ht with rfl | hright | hrest
    · exact hs
    · exact Verb.nodup_rightStates v hv t hright
    · cases hu : v.run catalog functions s with
      | ok u =>
        rw [hu] at hvs hrest
        exact nodup_pipelineStates vs
          (Verb.nodup_run hs (Verb.nodup_rightStates v hv) hv hu) hvs t hrest
      | error e =>
        rw [hu] at hrest
        cases hrest

theorem Verb.nodup_rightStates : ∀ (v : Verb) {s : QueryState},
    v.separates catalog functions s = true →
    ∀ t ∈ v.rightStates catalog functions, t.columnNames.Nodup
  | .join right on how, s, hsep, t, ht => by
    rw [Verb.separates, Bool.and_eq_true] at hsep
    exact Request.nodup_states right hsep.1 t ht
  | .select _, _, _, _, ht | .filter _, _, _, _, ht | .mutate _, _, _, _, ht
  | .arrange _, _, _, _, ht | .summarize _, _, _, _, ht | .count _ _ _, _, _, _, ht
  | .groupBy _ _, _, _, _, ht | .ungroup, _, _, _, ht | .rename _, _, _, _, ht
  | .distinct _ _ _, _, _, _, ht | .head _, _, _, _, ht => by cases ht

end

end Runs

/-- Columns share a name exactly when an aggregate is named like a group, or an ending makes a
clashing name of a join equal to another one. A request without either keeps the names of every
query that it goes through distinct. Filters by at least one predicate, selections, distinct rows
and counts separate columns whatever they start from, and a count is named like none of the columns
that it counts by. -/
theorem output_columns_repeat_exactly (catalog : Catalog) (functions : FunctionTable) :
    (∀ r : Request, r.separates catalog functions = true →
      ∀ s ∈ r.states catalog functions, s.columnNames.Nodup) ∧
    (∀ (s t : QueryState) (columns : OrderedMap ColumnExpr), s.summarize columns.entries = .ok t →
      (t.columnNames.Nodup ↔ s.SummarySeparates columns)) ∧
    (∀ (s t u : QueryState) (keys : JoinKeys) (kind : JoinKind), s.columnNames.Nodup →
      t.columnNames.Nodup → s.join t keys kind = .ok u →
      (u.columnNames.Nodup ↔ s.JoinSeparates t keys.toPairs)) ∧
    (∀ (s t : QueryState) (predicates : List ColumnExpr), predicates ≠ [] →
      s.filter predicates = .ok t → t.columnNames.Nodup) ∧
    (∀ (s t : QueryState) (columns : List ColumnExpr), s.select columns = .ok t →
      t.columnNames.Nodup) ∧
    (∀ (s t : QueryState) (columns : List ColumnExpr) (computed : List (String × ColumnExpr))
      (keepAll : Bool), s.distinct columns computed keepAll = .ok t → t.columnNames.Nodup) ∧
    ∀ (s t : QueryState) (columns : List ColumnExpr) (name : Option String) (sort : Bool),
      s.count columns name sort = .ok t → t.columnNames.Nodup ∧
        ∃ (counted : List (String × Expr)) (total : String),
          t.last.columns = counted ++ [(total, .countAll)] ∧
          t.last.groupBy = counted.map Prod.snd ∧ total ∉ counted.map Prod.fst := by
  refine ⟨fun r hsep => r.nodup_states hsep, fun s t columns h => nodup_summarize_iff h, ?_, ?_,
    fun s t columns h => nodup_select h, fun s t columns computed keepAll h => nodup_distinct h, ?_⟩
  · intro s t u keys kind hs ht h
    exact ⟨joinSeparates_of_nodup h, fun hsep => hsep.nodup hs ht h⟩
  · intro s t predicates hne h
    exact (nodup_filter h).resolve_left fun hsame => hne hsame.1
  · intro s t columns name sort h
    obtain ⟨counted, total, hcolumns, hgroupBy, _, htotal⟩ := count_separates h
    exact ⟨nodup_count h, counted, total, hcolumns, hgroupBy, htotal⟩

/-- Totals by group, joined to the rows under names that clash. -/
def totalsBesideRows : Request where
  collection := "people"
  pipeline := [.groupBy [.column "g"] false,
    .summarize (.ofList [("x", .call .sum [.column "x"] [])]),
    .join ⟨"people", [.filter [.call .greaterThan [.column "x", .literal (.int 0)] []]]⟩
      (.columns ["g"]) .left]

theorem totalsBesideRows_distinct :
    (totalsBesideRows.states peopleCatalog (.builtIn .postgres)).map QueryState.columnNames =
      [["g", "x"], ["g", "x"], ["g", "x"], ["g", "x"], ["g", "x"], ["g", "x_x", "x_y"]] ∧
    totalsBesideRows.separates peopleCatalog (.builtIn .postgres) = true ∧
    ∀ s ∈ totalsBesideRows.states peopleCatalog (.builtIn .postgres), s.columnNames.Nodup := by
  have hsep : totalsBesideRows.separates peopleCatalog (.builtIn .postgres) = true := by
    decide +kernel
  refine ⟨by decide +kernel, hsep, ?_⟩
  exact (output_columns_repeat_exactly peopleCatalog (.builtIn .postgres)).1 _ hsep

/-- A total that is named like the group it is taken by. -/
def totalNamedLikeGroup : Request where
  collection := "people"
  pipeline := [.groupBy [.column "g"] false,
    .summarize (.ofList [("g", .call .sum [.column "x"] [])])]

/-- A filter without predicates changes nothing, so it keeps names that repeat. -/
theorem filter_without_predicates_keeps_repeated_names :
    ¬∀ (s t : QueryState) (predicates : List ColumnExpr),
      totalNamedLikeGroup.run peopleCatalog (.builtIn .postgres) = .ok s →
      s.filter predicates = .ok t → t.columnNames.Nodup := by
  intro hall
  have hnames : (totalNamedLikeGroup.run peopleCatalog (.builtIn .postgres)).map
      QueryState.columnNames = .ok ["g", "g"] := by decide +kernel
  obtain ⟨s, hs, hcolumns⟩ := map_eq_ok.1 hnames
  have hnodup : s.columnNames.Nodup := hall s s [] hs rfl
  rw [hcolumns] at hnodup
  revert hnodup
  decide

end PipelineSql
