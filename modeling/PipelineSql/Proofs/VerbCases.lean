import PipelineSql.Proofs.Building
import PipelineSql.Proofs.Expressions
import PipelineSql.Proofs.Nesting
import PipelineSql.Request.Basic

/-!
# What a successful verb has done

One statement for each verb, taken from its definition once: the parts it computed, and the state
that it returned. Everything proved about verbs starts from these.
-/

namespace PipelineSql

open Sql (Expr Ordered Select AliasCounter TableAlias)

lemma throwing_eq_ok {ε α : Type} {c : Prop} [Decidable c] {e : ε} {f : PUnit → Except ε α}
    {x : Except ε α} {b : α} :
    (if c then (throw e : Except ε PUnit) >>= f else x) = .ok b ↔ ¬c ∧ x = .ok b := by
  by_cases hc : c
  · simp [hc, throw, throwThe, MonadExceptOf.throw, bind, Except.bind]
  · simp [hc]

namespace QueryState

section Wrapped

variable {needed : Bool} {q base : Select} {aliases aliases' : AliasCounter}

lemma wrapIf_cases (h : wrapIf needed q aliases = (base, aliases')) :
    (needed = false ∧ base = q ∧ aliases' = aliases) ∨
      (base = q.throughSubquery ⟨"subquery", aliases.next⟩ ∧ aliases' = ⟨aliases.next + 1⟩) := by
  cases needed with
  | false =>
    have hsame : (q, aliases) = (base, aliases') := h
    cases hsame
    exact Or.inl ⟨rfl, rfl, rfl⟩
  | true =>
    have hwrapped : (q.throughSubquery ⟨"subquery", aliases.next⟩, ⟨aliases.next + 1⟩) =
        (base, aliases') := h
    cases hwrapped
    exact Or.inr ⟨rfl, rfl⟩

/-- After a wrap that is made when rows are distinct, rows may repeat. -/
lemma distinct_of_wrapIf (h : wrapIf needed q aliases = (base, aliases'))
    (hneeded : needed = false → q.distinct = false) : base.distinct = false := by
  rcases wrapIf_cases h with ⟨hfalse, rfl, _⟩ | ⟨rfl, _⟩
  · exact hneeded hfalse
  · rfl

lemma changesRowSet_of_wrapIf (h : wrapIf needed q aliases = (base, aliases'))
    (hneeded : needed = false → q.changesRowSet = false) : base.changesRowSet = false := by
  rcases wrapIf_cases h with ⟨hfalse, rfl, _⟩ | ⟨rfl, _⟩
  · exact hneeded hfalse
  · rfl

/-- A column that the query passes on under its own name stands for itself. -/
lemma exposes_of_not_derived {name : String} {x : Expr}
    (hname : name ∉ q.derivedColumns) (hx : (Scope.ofSelectList q).lookup name = .ok x) :
    x.exposes name = true := by
  have hmem := Scope.mem_of_lookup_ofSelectList hx
  by_contra hexposes
  rw [Bool.not_eq_true] at hexposes
  refine hname (OrderedSet.mem_ofList.2 (List.mem_map.2 ⟨(name, x), ?_, rfl⟩))
  simpa [hexposes] using hmem

/-- After a wrap that is made when a name is computed by the query, the name is a column. -/
lemma isColumn_of_wrapIf (h : wrapIf needed q aliases = (base, aliases')) {names : List String}
    (hneeded : needed = false → readsDerived q names = false) {name : String} (hname : name ∈ names)
    {x : Expr} (hx : (Scope.ofSelectList base).lookup name = .ok x) : x.isColumn = true := by
  rcases wrapIf_cases h with ⟨hfalse, rfl, _⟩ | ⟨rfl, _⟩
  · refine Expr.isColumn_of_exposes (exposes_of_not_derived ?_ hx)
    simpa using List.any_eq_false.1 (hneeded hfalse) name hname
  · obtain ⟨c, _, he⟩ := List.mem_map.1 (Scope.mem_of_lookup_ofSelectList hx)
    cases he
    rfl

end Wrapped

lemma isColumn_lookup_ofSubquery {q : Select} {a : TableAlias} {name : String} {x : Expr}
    (h : (Scope.ofSubquery q a).lookup name = .ok x) : x.isColumn = true := by
  obtain ⟨rfl, _⟩ := Scope.lookup_ofSubquery h
  rfl

lemma resolveOrder_cases {s : QueryState} {scope : Scope} {order : List (Ordered ColumnExpr)}
    {resolved : List (Ordered Expr)} (h : s.resolveOrder scope order = .ok resolved) :
    ∀ r ∈ resolved, ∃ term ∈ order, s.compileIn scope .scalar {} term.target = .ok r.target := by
  intro r hr
  obtain ⟨term, hterm, hcompile⟩ := exists_of_forall₂ (mapM_eq_ok.1 h) hr
  simp only [bind_eq_ok, pure_eq_ok] at hcompile
  obtain ⟨x, hx, rfl⟩ := hcompile
  exact ⟨term, hterm, hx⟩

lemma windowContext_cases {s : QueryState} {scope : Scope} {placement : Placement}
    {context : WindowContext} (h : s.windowContext scope placement = .ok context) :
    context.placement = placement ∧
      (∀ x ∈ context.partitionBy, ∃ g ∈ s.groups, scope.lookup g = .ok x) ∧
      ∀ r ∈ context.orderBy, ∃ term ∈ s.order,
        s.compileIn scope .scalar {} term.target = .ok r.target := by
  unfold windowContext at h
  simp only [bind_eq_ok, pure_eq_ok] at h
  obtain ⟨partitionBy, hpartition, orderBy, horder, rfl⟩ := h
  refine ⟨rfl, ?_, resolveOrder_cases horder⟩
  intro x hx
  obtain ⟨g, hg, hlookup⟩ := exists_of_forall₂ (mapM_eq_ok.1 hpartition) hx
  exact ⟨g, hg, hlookup⟩

lemma select_cases {s t : QueryState} {columns : List ColumnExpr}
    (h : s.select columns = .ok t) :
    ∃ selectors chosen selection base aliases list,
      columns.mapM (fun e => Selector.parse s.columnNames e.shape) = .ok selectors ∧
      chosen = Selector.selection s.columnNames selectors ∧
      selection = withGroups chosen s.groups.toList ∧
      ¬selection.isEmpty = true ∧
      wrapIf s.last.distinct s.last s.aliases = (base, aliases) ∧
      List.Forall₂ (fun e c => c.1 = e.1 ∧ (Scope.ofSelectList base).lookup e.2 = .ok c.2)
        selection.entries list ∧
      t = s.pushWith { base with columns := list } aliases
        (.ofList (s.groups.toList.map fun g => (outputOf? chosen g).getD g))
        (renameOrder (selectionRenames selection)
          (s.order.filter fun term => term.target.reads.all fun n => n ∈ selection.values)) := by
  unfold QueryState.select at h
  simp only [bind_eq_ok, throwing_eq_ok, pure_eq_ok] at h
  obtain ⟨selectors, hparse, hne, list, hlist, rfl⟩ := h
  refine ⟨selectors, _, _, _, _, list, hparse, rfl, rfl, hne, rfl, ?_, rfl⟩
  refine (mapM_eq_ok.1 hlist).imp ?_
  intro e c hc
  obtain ⟨x, hx, rfl⟩ := by simpa only [bind_eq_ok, pure_eq_ok] using hc
  exact ⟨rfl, hx⟩

lemma rename_cases {s t : QueryState} {columns : List (String × ColumnExpr)}
    (h : s.rename columns = .ok t) :
    ∃ renames list, parseRenames s.columnNames columns = .ok renames ∧
      list = s.last.columns.map (fun c => (newName renames c.1, c.2)) ∧
      firstRepeated? [] (list.map Prod.fst) = none ∧
      t = s.pushWith { s.last with columns := list } s.aliases
        (.ofList (s.groups.toList.map (newName renames))) (renameOrder renames s.order) := by
  unfold QueryState.rename at h
  simp only [bind_eq_ok] at h
  obtain ⟨renames, hrenames, h⟩ := h
  split at h
  · simp [throw, throwThe, MonadExceptOf.throw, bind, Except.bind] at h
  · rename_i hnone
    rw [pure_eq_ok] at h
    refine ⟨renames, _, hrenames, rfl, ?_, h.symm⟩
    rw [Option.eq_none_iff_forall_ne_some]
    exact hnone

lemma nodup_of_firstRepeated {seen l : List String} (h : firstRepeated? seen l = none) :
    l.Nodup ∧ ∀ n ∈ l, n ∉ seen := by
  induction l generalizing seen with
  | nil => simp
  | cons n l ih =>
    unfold firstRepeated? at h
    split at h
    · cases h
    · rename_i hn
      obtain ⟨hnodup, hseen⟩ := ih h
      refine ⟨List.nodup_cons.2 ⟨fun hmem => hseen n hmem List.mem_cons_self, hnodup⟩, ?_⟩
      intro m hm
      rcases List.mem_cons.1 hm with rfl | hm
      · exact hn
      · exact fun hmem => hseen m hm (List.mem_cons_of_mem _ hmem)

lemma addColumn_cases {s : QueryState} {name : String} {e : ColumnExpr} {q q' : Select}
    {aliases aliases' : AliasCounter} (h : s.addColumn name e q aliases = .ok (q', aliases')) :
    ∃ base windows x,
      wrapIf (q.changesRowSet || !q.groupBy.isEmpty ||
        readsDerived q (e.reads ++ s.windowColumns.toList)) q aliases = (base, aliases') ∧
      s.windowContext (.ofSelectList base) .inPlace = .ok windows ∧
      s.compileIn (.ofSelectList base) .window windows e = .ok x ∧
      q' = { base with columns := putEntry name x base.columns } := by
  unfold addColumn at h
  simp only [bind_eq_ok, pure_eq_ok] at h
  obtain ⟨windows, hwindows, x, hx, he⟩ := h
  cases he
  exact ⟨_, windows, x, rfl, hwindows, hx, rfl⟩

/-- What one added column keeps, a whole list of them keeps. -/
lemma addColumns_induction {s : QueryState} {motive : Select → AliasCounter → Prop}
    (step : ∀ name e q aliases q' aliases', motive q aliases →
      s.addColumn name e q aliases = .ok (q', aliases') → motive q' aliases')
    {columns : List (String × ColumnExpr)} {q q' : Select} {aliases aliases' : AliasCounter}
    (hq : motive q aliases) (h : s.addColumns columns q aliases = .ok (q', aliases')) :
    motive q' aliases' := by
  induction columns generalizing q aliases with
  | nil =>
    cases h
    exact hq
  | cons c rest ih =>
    obtain ⟨name, e⟩ := c
    simp only [addColumns, bind_eq_ok] at h
    obtain ⟨⟨q₁, aliases₁⟩, hadd, hrest⟩ := h
    exact ih (step _ _ _ _ _ _ hq hadd) hrest

lemma mutate_cases {s t : QueryState} {columns : List (String × ColumnExpr)}
    (h : s.mutate columns = .ok t) :
    (columns = [] ∧ t = s) ∨
      ∃ q aliases, s.addColumns columns s.last s.aliases = .ok (q, aliases) ∧
        t = s.push q aliases := by
  unfold mutate at h
  split at h
  · cases h
    exact Or.inl ⟨rfl, rfl⟩
  · simp only [bind_eq_ok, pure_eq_ok] at h
    obtain ⟨⟨q, aliases⟩, hadd, rfl⟩ := h
    exact Or.inr ⟨q, aliases, hadd, rfl⟩

lemma filter_cases {s t : QueryState} {predicates : List ColumnExpr}
    (h : s.filter predicates = .ok t) :
    (predicates = [] ∧ t = s) ∨ ∃ subquery windows scope context conditions found inner list,
      subquery = (⟨"subquery", s.aliases.next⟩ : TableAlias) ∧
      windows = (⟨"windows", s.aliases.next + 1⟩ : TableAlias) ∧
      scope = Scope.ofSubquery s.last subquery ∧
      s.windowContext scope (.hoisted windows) = .ok context ∧
      CompileEnv.compileAll ⟨s.functions, scope, context⟩ .window (predicates.map .shape) =
        .ok (conditions, found) ∧
      inner = Select.reading
        (scope.selectList ++ found.map fun w => (w.label, w.expression)) s.last subquery ∧
      (Scope.ofSubquery inner windows).project s.orderedColumnNames = .ok list ∧
      t = s.push { Select.reading list inner windows with
        condition := Expr.conjunction (conditions.map (Expr.replaceAlias subquery windows)) }
        ⟨s.aliases.next + 2⟩ := by
  unfold QueryState.filter at h
  split at h
  · cases h
    exact Or.inl ⟨rfl, rfl⟩
  · simp only [AliasCounter.make, bind_eq_ok, pure_eq_ok] at h
    obtain ⟨context, hcontext, ⟨conditions, found⟩, hall, list, hlist, rfl⟩ := h
    exact Or.inr ⟨_, _, _, context, conditions, found, _, list, rfl, rfl, rfl, hcontext, hall, rfl,
      hlist, rfl⟩

lemma distinct_cases {s t : QueryState} {columns : List ColumnExpr}
    {computed : List (String × ColumnExpr)} {keepAll : Bool}
    (h : s.distinct columns computed keepAll = .ok t) :
    ∃ given base names inner aliases list,
      distinctNames columns = .ok given ∧ s.mutate computed = .ok base ∧
      names = (if ((OrderedSet.ofList given).extend (computed.map Prod.fst)).isEmpty = true
        then OrderedSet.ofList base.columnNames
        else (OrderedSet.ofList given).extend (computed.map Prod.fst)) ∧
      wrapIf (base.last.changesRowSet || !base.last.orderBy.isEmpty) base.last base.aliases =
        (inner, aliases) ∧
      (Scope.ofSelectList inner).project names.toList = .ok list ∧
      t = base.pushWith { inner with columns := list, distinct := true } aliases
        (base.groups.filter fun g => g ∈ names) [] := by
  unfold QueryState.distinct at h
  simp only [throwing_eq_ok, bind_eq_ok, pure_eq_ok] at h
  obtain ⟨_, given, hgiven, base, hbase, list, hlist, rfl⟩ := h
  exact ⟨given, base, _, _, _, list, hgiven, hbase, rfl, rfl, hlist, rfl⟩

lemma distinctNames_eq_ok {columns : List ColumnExpr} {given : List String}
    (h : distinctNames columns = .ok given) :
    columns.mapM (fun e => e.shape.simpleName?) = some given := by
  induction columns generalizing given with
  | nil =>
    cases h
    rfl
  | cons e rest ih =>
    simp only [distinctNames] at h
    split at h
    · rename_i name hname
      simp only [bind_eq_ok, pure_eq_ok] at h
      obtain ⟨names, hnames, rfl⟩ := h
      rw [List.mapM_cons, hname, ih hnames]
      rfl
    · cases h

lemma arrange_cases {s t : QueryState} {terms : List ColumnExpr} (h : s.arrange terms = .ok t) :
    t = s ∨ ∃ base aliases resolved,
      wrapIf s.last.changesRowSet s.last s.aliases = (base, aliases) ∧
      s.resolveOrder (.ofSelectList base) (terms.map fun e => orderTerm e.shape) = .ok resolved ∧
      t = s.pushWith { base with orderBy := base.orderBy ++ resolved } aliases s.groups
        (s.order ++ terms.map fun e => orderTerm e.shape) := by
  unfold arrange at h
  split at h
  · cases h
    exact Or.inl rfl
  · simp only [bind_eq_ok, pure_eq_ok] at h
    obtain ⟨resolved, hresolved, rfl⟩ := h
    exact Or.inr ⟨_, _, resolved, rfl, hresolved, rfl⟩

lemma summarize_cases {s t : QueryState} {columns : List (String × ColumnExpr)}
    (h : s.summarize columns = .ok t) :
    ∃ shaped base aliases groups aggregates,
      ¬(columns.isEmpty && s.groups.isEmpty) = true ∧
      shaped = columns.map (fun c => (c.1, c.2.shape)) ∧
      readsEarlier? [] shaped = none ∧
      wrapIf (!s.last.groupBy.isEmpty || s.last.changesRowSet ||
        readsDerived s.last (shaped.flatMap (fun c => c.2.reads) ++ s.groups.toList))
        s.last s.aliases = (base, aliases) ∧
      (Scope.ofSelectList base).project s.groups.toList = .ok groups ∧
      List.Forall₂ (fun c r => r.1 = c.1 ∧
        s.compileIn (.ofSelectList base) .aggregate {} c.2 = .ok r.2) shaped aggregates ∧
      t = s.pushWith { base with
        orderBy := [], columns := groups ++ aggregates, groupBy := groups.map Prod.snd }
        aliases .empty [] := by
  unfold summarize at h
  simp only [throwing_eq_ok] at h
  obtain ⟨hne, h⟩ := h
  split at h
  · simp [throw, throwThe, MonadExceptOf.throw, bind, Except.bind] at h
  · rename_i hnone
    simp only [bind_eq_ok, pure_eq_ok] at h
    obtain ⟨groups, hgroups, aggregates, haggregates, rfl⟩ := h
    refine ⟨_, _, _, groups, aggregates, hne, rfl, ?_, rfl, hgroups, ?_, rfl⟩
    · rw [Option.eq_none_iff_forall_ne_some]
      exact hnone
    · refine (mapM_eq_ok.1 haggregates).imp ?_
      intro c r hr
      obtain ⟨x, hx, rfl⟩ := by simpa only [bind_eq_ok, pure_eq_ok] using hr
      exact ⟨rfl, hx⟩

/-- The columns that are counted by are compiled row by row and added to those there are. -/
lemma countedColumns_cases {s : QueryState} {scope : Scope} {columns : List ColumnExpr}
    {counted : List String} {list list' : List (String × Expr)}
    (h : s.countedColumns scope columns list = .ok (counted, list')) :
    ∀ c ∈ list', c ∈ list ∨ ∃ e ∈ columns, s.compileIn scope .scalar {} e.shape = .ok c.2 := by
  induction columns generalizing counted list with
  | nil =>
    cases h
    exact fun c hc => Or.inl hc
  | cons e rest ih =>
    have hstep : ∃ names mid, s.countedColumns scope rest mid = .ok (names, list') ∧
        ∀ c ∈ mid, c ∈ list ∨ s.compileIn scope .scalar {} e.shape = .ok c.2 := by
      simp only [countedColumns] at h
      split at h
      · simp only [bind_eq_ok, pure_eq_ok, map_eq_ok] at h
        obtain ⟨_, ⟨_, _, rfl⟩, ⟨names, list₁⟩, hrest, he⟩ := h
        cases he
        exact ⟨names, list, hrest, fun c hc => Or.inl hc⟩
      · simp only [bind_eq_ok, pure_eq_ok] at h
        obtain ⟨x, hx, _, rfl, ⟨names, list₁⟩, hrest, he⟩ := h
        cases he
        refine ⟨names, _, hrest, ?_⟩
        intro c hc
        rcases mem_putEntry hc with rfl | hc
        · exact Or.inr hx
        · exact Or.inl hc
    obtain ⟨names, mid, hrest, hmid⟩ := hstep
    intro c hc
    rcases ih hrest c hc with hc | ⟨e', he', hx⟩
    · rcases hmid c hc with hc | hx
      · exact Or.inl hc
      · exact Or.inr ⟨e, List.mem_cons_self, hx⟩
    · exact Or.inr ⟨e', List.mem_cons_of_mem _ he', hx⟩

lemma joinCondition_cases {left right : Scope} {keys : List (String × String)} {x : Expr}
    (h : joinCondition left right keys = .ok x) :
    ∃ equations, x = Expr.conjunction equations ∧
      ∀ e ∈ equations, ∃ k ∈ keys, ∃ l r, left.lookup k.1 = .ok l ∧ right.lookup k.2 = .ok r ∧
        e = Expr.equals l r := by
  unfold joinCondition at h
  simp only [bind_eq_ok, pure_eq_ok] at h
  obtain ⟨equations, hequations, rfl⟩ := h
  refine ⟨equations, rfl, ?_⟩
  intro e he
  obtain ⟨k, hk, hlookup⟩ := exists_of_forall₂ (mapM_eq_ok.1 hequations) he
  simp only [bind_eq_ok, pure_eq_ok] at hlookup
  obtain ⟨l, hl, r, hr, rfl⟩ := hlookup
  exact ⟨k, hk, l, r, hl, hr, rfl⟩

lemma count_cases {s t : QueryState} {columns : List ColumnExpr} {name : Option String}
    {sort : Bool} (h : s.count columns name sort = .ok t) :
    ∃ subquery grouped scope counted list inner groups groupColumns,
      subquery = (⟨"subquery", s.aliases.next⟩ : TableAlias) ∧
      grouped = (⟨"grouped", s.aliases.next + 1⟩ : TableAlias) ∧
      scope = Scope.ofSubquery s.last subquery ∧
      s.countedColumns scope columns scope.selectList = .ok (counted, list) ∧
      inner = Select.reading list s.last subquery ∧
      groups = s.groups.extend counted ∧
      (Scope.ofSubquery inner grouped).project groups.toList = .ok groupColumns ∧
      t = s.pushWith { Select.reading (groupColumns ++
          [(countName groups.toList (name.getD "n"), .countAll)]) inner grouped with
        groupBy := groupColumns.map Prod.snd
        orderBy := if sort then [⟨.countAll, .desc⟩] else [] }
        ⟨s.aliases.next + 2⟩ s.groups [] := by
  unfold QueryState.count at h
  simp only [AliasCounter.make, bind_eq_ok, pure_eq_ok] at h
  obtain ⟨⟨counted, list⟩, hcounted, groupColumns, hgroups, rfl⟩ := h
  exact ⟨_, _, _, counted, list, _, _, groupColumns, rfl, rfl, rfl, hcounted, rfl, rfl, hgroups,
    rfl⟩

lemma groupBy_cases {s t : QueryState} {columns : List ColumnExpr} {add : Bool}
    (h : s.groupBy columns add = .ok t) : ∃ groups, t = { s with groups } := by
  unfold groupBy at h
  simp only [bind_eq_ok, pure_eq_ok] at h
  obtain ⟨groups, _, rfl⟩ := h
  exact ⟨groups, rfl⟩

/-- Whether a name is a key of a join on both sides. -/
def isSharedKey (pairs : List (String × String)) (n : String) : Bool :=
  pairs.any fun p => p.1 = p.2 && p.1 = n

/-- Whether both sides of a join have a column of a name that is no shared key. -/
def clashes (s t : QueryState) (pairs : List (String × String)) (n : String) : Bool :=
  n ∈ s.columnNames && n ∈ t.columnNames && !isSharedKey pairs n

/-- The statement of a join: a right join reads its sides the other way round. -/
def joinStage (s t : QueryState) (kind : JoinKind) (list : List (String × Expr))
    (lhs rhs : TableAlias) (condition : Expr) : Select :=
  match kind with
  | .right =>
    { Select.reading list t.last rhs with joins := [⟨kind.sqlType, s.last, lhs, condition⟩] }
  | _ => { Select.reading list s.last lhs with joins := [⟨kind.sqlType, t.last, rhs, condition⟩] }

lemma mem_items_joinStage {s t : QueryState} {kind : JoinKind} {list : List (String × Expr)}
    {lhs rhs : TableAlias} {condition : Expr} {i : Sql.Source Select} :
    i ∈ (joinStage s t kind list lhs rhs condition).items ↔
      i = .subquery s.last lhs ∨ i = .subquery t.last rhs := by
  cases kind with
  | right => simp [joinStage, Select.items, Select.reading, or_comm]
  | inner | left | full => simp [joinStage, Select.items, Select.reading]

section JoinStage

variable (s t : QueryState) (kind : JoinKind) (list : List (String × Expr)) (lhs rhs : TableAlias)
  (condition : Expr)

@[simp] lemma columns_joinStage : (joinStage s t kind list lhs rhs condition).columns = list := by
  cases kind <;> rfl

@[simp] lemma condition_joinStage :
    (joinStage s t kind list lhs rhs condition).condition = .always := by
  cases kind <;> rfl

@[simp] lemma groupBy_joinStage : (joinStage s t kind list lhs rhs condition).groupBy = [] := by
  cases kind <;> rfl

@[simp] lemma orderBy_joinStage : (joinStage s t kind list lhs rhs condition).orderBy = [] := by
  cases kind <;> rfl

lemma condition_of_mem_joinStage {s t : QueryState} {kind : JoinKind}
    {list : List (String × Expr)} {lhs rhs : TableAlias} {condition : Expr}
    {j : Sql.Joined Select} (h : j ∈ (joinStage s t kind list lhs rhs condition).joins) :
    j.condition = condition := by
  cases kind with
  | right | inner | left | full =>
    simp only [joinStage, List.mem_singleton] at h
    rw [h]

end JoinStage

lemma join_cases {s t u : QueryState} {keys : JoinKeys} {kind : JoinKind}
    (h : s.join t keys kind = .ok u) :
    ∃ pairs lhs rhs left right condition leftList rightList,
      s.dialect = t.dialect ∧ pairs = keys.toPairs ∧ ¬pairs.isEmpty = true ∧
      lhs = (⟨"lhs", max s.aliases.next t.aliases.next⟩ : TableAlias) ∧
      rhs = (⟨"rhs", max s.aliases.next t.aliases.next + 1⟩ : TableAlias) ∧
      left = Scope.ofSubquery s.last lhs ∧ right = Scope.ofSubquery t.last rhs ∧
      joinCondition left right pairs = .ok condition ∧
      List.Forall₂ (fun n c => ∃ x, left.lookup n = .ok x ∧
        ((isSharedKey pairs n = true ∧ ∃ y, right.lookup n = .ok y ∧ c = (n, kind.sharedKey x y)) ∨
          (isSharedKey pairs n = false ∧
            c = (if clashes s t pairs n = true then n ++ "_x" else n, x))))
        s.columnNames leftList ∧
      List.Forall₂ (fun n c => c.1 = (if clashes s t pairs n = true then n ++ "_y" else n) ∧
        right.lookup n = .ok c.2)
        (t.columnNames.filter fun n => !isSharedKey pairs n) rightList ∧
      u = s.pushWith (joinStage s t kind (leftList ++ rightList) lhs rhs condition)
        ⟨max s.aliases.next t.aliases.next + 2⟩
        (s.groups.filter fun g => g ∈ (leftList ++ rightList).map Prod.fst) [] := by
  unfold QueryState.join at h
  simp only [AliasCounter.make, AliasCounter.merge, throwing_eq_ok, bind_eq_ok, pure_eq_ok] at h
  obtain ⟨hd, hne, condition, hcond, leftList, hleft, rightList, hright, rfl⟩ := h
  refine ⟨_, _, _, _, _, condition, leftList, rightList, by simpa using hd, rfl, hne, rfl, rfl, rfl,
    rfl, hcond, ?_, ?_, rfl⟩
  · refine (mapM_eq_ok.1 hleft).imp ?_
    intro n c hc
    simp only [bind_eq_ok] at hc
    obtain ⟨x, hx, hc⟩ := hc
    refine ⟨x, hx, ?_⟩
    split at hc
    · rename_i hshared
      simp only [bind_eq_ok, pure_eq_ok] at hc
      obtain ⟨y, hy, rfl⟩ := hc
      exact Or.inl ⟨hshared, y, hy, rfl⟩
    · rename_i hshared
      exact Or.inr ⟨Bool.eq_false_iff.2 hshared, (pure_eq_ok.1 hc).symm⟩
  · refine (mapM_eq_ok.1 hright).imp ?_
    intro n c hc
    obtain ⟨y, hy, rfl⟩ := by simpa only [bind_eq_ok, pure_eq_ok] using hc
    exact ⟨rfl, hy⟩

/-- A join reads its sides under new aliases, and what row-wise SQL passes on holds of its columns
and of its condition when it holds of the columns of both sides. -/
lemma join_parts {s t u : QueryState} {keys : JoinKeys} {kind : JoinKind}
    (h : s.join t keys kind = .ok u) :
    ∃ lhs rhs condition list groups,
      lhs = (⟨"lhs", max s.aliases.next t.aliases.next⟩ : TableAlias) ∧
      rhs = (⟨"rhs", max s.aliases.next t.aliases.next + 1⟩ : TableAlias) ∧
      u = s.pushWith (joinStage s t kind list lhs rhs condition)
        ⟨max s.aliases.next t.aliases.next + 2⟩ groups [] ∧
      ∀ {calls : String → Prop} {P : Expr → Prop}, RowClosed calls P → calls "coalesce" →
        (∀ n y, (Scope.ofSubquery s.last lhs).lookup n = .ok y → P y) →
        (∀ n y, (Scope.ofSubquery t.last rhs).lookup n = .ok y → P y) →
        P condition ∧ ∀ c ∈ list, P c.2 := by
  obtain ⟨pairs, lhs, rhs, left, right, condition, leftList, rightList, _, _, _, hlhs, hrhs, rfl,
    rfl, hcondition, hleftList, hrightList, rfl⟩ := join_cases h
  refine ⟨lhs, rhs, condition, leftList ++ rightList, _, hlhs, hrhs, rfl, ?_⟩
  intro calls P hP hcall hl hr
  constructor
  · obtain ⟨equations, rfl, hequations⟩ := joinCondition_cases hcondition
    refine hP.conjunction ?_
    intro e he
    obtain ⟨k, _, y, z, hy, hz, rfl⟩ := hequations e he
    exact hP.binary _ _ _ (hl _ y hy) (hr _ z hz)
  · intro c hc
    rcases List.mem_append.1 hc with hc | hc
    · obtain ⟨n, _, x, hx, ⟨_, y, hy, rfl⟩ | ⟨_, rfl⟩⟩ := exists_of_forall₂ hleftList hc
      · cases kind with
        | inner | left => exact hl n x hx
        | right => exact hr n y hy
        | full => exact hP.call "coalesce" [x, y] hcall (by simpa using ⟨hl n x hx, hr n y hy⟩)
      · exact hl n x hx
    · obtain ⟨n, _, _, hy⟩ := exists_of_forall₂ hrightList hc
      exact hr n _ hy

end QueryState

end PipelineSql
