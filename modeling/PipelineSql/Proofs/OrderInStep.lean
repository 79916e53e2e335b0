import PipelineSql.Proofs.GroupsAndOrder
import PipelineSql.Proofs.Rebinding
import PipelineSql.Proofs.Scoping

/-!
# The ordering of the rows and the recorded one

An ordering is kept twice: compiled, in the stage that sorts the rows, and as expressions over the
columns of the query, from which windows are ordered. A column that takes the place of one that the
ordering reads changes what the second of them means, and leaves the first as it is.
-/

namespace PipelineSql

open Sql (Expr Ordered Select AliasCounter ColumnRef)

/-- An ordering stays as it is exactly when each of its columns does. -/
lemma bindOrder_eq_self {f : ColumnRef → Expr} {order : List (Ordered Expr)} :
    bindOrder f order = order ↔ ∀ term ∈ order, ∀ r ∈ term.target.refs, f r = .column r := by
  have hterm : ∀ term : Ordered Expr,
      (⟨term.target.bindColumns f, term.direction⟩ : Ordered Expr) = term ↔
        ∀ r ∈ term.target.refs, f r = .column r := by
    intro term
    constructor
    · intro h
      refine Expr.eq_of_bindColumns_eq ?_
      rw [Expr.bindColumns_self]
      exact congrArg Ordered.target h
    · intro h
      rw [Expr.bindColumns_eq_self h]
  calc bindOrder f order = order
      ↔ bindOrder f order = order.map id := by rw [List.map_id]
    _ ↔ ∀ term ∈ order, (⟨term.target.bindColumns f, term.direction⟩ : Ordered Expr) = term :=
        List.map_inj_left
    _ ↔ _ := forall₂_congr fun term _ => hterm term

namespace QueryState

variable {s t : QueryState}

/-- The recorded ordering, compiled in the scope of the select list, is the one by which the last
stage sorts its rows. -/
def OrderInStep (s : QueryState) : Prop :=
  s.resolveOrder (.ofSelectList s.last) s.order = .ok s.last.orderBy

/-- Windows that are computed beside an ordering in step are ordered as the rows are. -/
lemma OrderInStep.windowContext (hs : s.OrderInStep) {placement : Placement}
    {windows : WindowContext} (h : s.windowContext (.ofSelectList s.last) placement = .ok windows) :
    windows.orderBy = s.last.orderBy := by
  unfold QueryState.windowContext at h
  simp only [bind_eq_ok, pure_eq_ok] at h
  obtain ⟨_, _, orderBy, horder, rfl⟩ := h
  rw [hs] at horder
  exact (Except.ok.inj horder).symm

/-- The first ordering of a query is compiled where it is recorded. -/
lemma OrderInStep.arrange {terms : List ColumnExpr} (horder : s.order = [])
    (horderBy : s.last.orderBy = []) (h : s.arrange terms = .ok t) : t.OrderInStep := by
  rcases arrange_cases h with rfl | ⟨base, aliases, resolved, hwrap, hresolved, rfl⟩
  · rw [OrderInStep, horder, horderBy]
    rfl
  · have hbase : base.orderBy = [] := by
      rcases wrapIf_cases hwrap with ⟨_, rfl, _⟩ | ⟨rfl, _⟩
      · exact horderBy
      · rfl
    have hterms : s.order ++ terms.map (fun e => orderTerm e.shape) =
        terms.map fun e => orderTerm e.shape := by rw [horder, List.nil_append]
    have hrows : base.orderBy ++ resolved = resolved := by rw [hbase, List.nil_append]
    unfold OrderInStep
    simp only [pushWith, push, hterms, hrows]
    exact hresolved

section InPlace

variable {columns : List (String × ColumnExpr)} {q q' : Select} {aliases aliases' : AliasCounter}

/-- Every wrap takes an alias, and a stage that is not wrapped keeps its ordering. -/
lemma orderBy_addColumns (h : s.addColumns columns q aliases = .ok (q', aliases')) :
    aliases.next ≤ aliases'.next ∧ (aliases'.next = aliases.next → q'.orderBy = q.orderBy) := by
  refine addColumns_induction (motive := fun p counter =>
    aliases.next ≤ counter.next ∧ (counter.next = aliases.next → p.orderBy = q.orderBy))
    ?_ ⟨le_rfl, fun _ => rfl⟩ h
  intro name e p counter p' counter' ⟨hle, horder⟩ hadd
  obtain ⟨base, windows, x, hwrap, _, _, rfl⟩ := addColumn_cases hadd
  rcases wrapIf_cases hwrap with ⟨_, rfl, rfl⟩ | ⟨rfl, rfl⟩
  · exact ⟨hle, horder⟩
  · refine ⟨?_, ?_⟩
    · show aliases.next ≤ counter.next + 1
      omega
    · intro hsame
      have hnext : counter.next + 1 = aliases.next := hsame
      omega

/-- Columns are added in place only to a stage that passes on what the ordering reads. -/
lemma not_readsDerived_of_addColumns (hne : columns ≠ [])
    (h : s.addColumns columns q aliases = .ok (q', aliases)) :
    ∀ n ∈ s.windowColumns, n ∉ q.derivedColumns := by
  cases columns with
  | nil => exact absurd rfl hne
  | cons c rest =>
    obtain ⟨name, e⟩ := c
    simp only [addColumns, bind_eq_ok] at h
    obtain ⟨⟨q₁, aliases₁⟩, hadd, hrest⟩ := h
    have hle := (orderBy_addColumns hrest).1
    obtain ⟨base, windows, x, hwrap, _, _, _⟩ := addColumn_cases hadd
    rcases wrapIf_cases hwrap with ⟨hneeded, _, _⟩ | ⟨_, rfl⟩
    · simp only [Bool.or_eq_false_iff] at hneeded
      intro n hn
      simpa using List.any_eq_false.1 hneeded.2 n (List.mem_append_right _ hn)
    · have hnext : aliases.next + 1 ≤ aliases.next := hle
      omega

end InPlace

/-- Terms whose columns stand for expressions over other columns resolve to what they resolved to,
with these expressions in the place of the columns. -/
lemma resolveOrder_rebind {scope scope' : Scope} {f : ColumnRef → Expr}
    {order : List (Ordered ColumnExpr)} {resolved : List (Ordered Expr)}
    (hbuild : s.functions.Rebuilds .scalar f)
    (hterms : ∀ term ∈ order, scope.Rebinds scope' f id term.target.reads)
    (h : s.resolveOrder scope order = .ok resolved) :
    s.resolveOrder scope' order = .ok (bindOrder f resolved) := by
  refine mapM_eq_ok.2 (List.forall₂_map_right_iff.2 ?_)
  refine forall₂_imp_mem (mapM_eq_ok.1 h) fun term hterm r hr => ?_
  simp only [bind_eq_ok, pure_eq_ok] at hr ⊢
  obtain ⟨x, hx, rfl⟩ := hr
  exact ⟨_, compileIn_rebinds hbuild rfl (hterms term hterm) hx, rfl⟩

/-- What stands in a select list under the name of a column. -/
def atName (q : Select) (r : ColumnRef) : Expr :=
  ((Scope.ofSelectList q).columns.get? r.name).getD (.column r)

lemma lookup_atName {q : Select} {r : ColumnRef} (h : r.name ∈ q.columnNames) :
    (Scope.ofSelectList q).lookup r.name = .ok (atName q r) := by
  obtain ⟨x, hx⟩ := exists_lookup (Scope.mem_names_ofSelectList.2 h)
  rw [Scope.lookup_eq_ok, atName, OrderedMap.get?, hx, Option.getD_some]

/-- A column that a query does not compute itself is passed on under its name. -/
lemma exists_column_of_not_derived {q : Select} {n : String} {x : Expr}
    (hn : n ∉ q.derivedColumns) (hx : (Scope.ofSelectList q).lookup n = .ok x) :
    ∃ r, x = .column r ∧ r.name = n := by
  have hexposes := exposes_of_not_derived hn hx
  cases x with
  | column r => exact ⟨r, rfl, of_decide_eq_true hexposes⟩
  | _ => cases hexposes

section Replaced

variable {columns : List (String × ColumnExpr)} {q : Select}

/-- A column that the ordering reads is passed on under its name by a stage that is extended in
place. -/
lemma lookup_of_inPlace (hne : columns ≠ [])
    (h : s.addColumns columns s.last s.aliases = .ok (q, s.aliases)) {term : Ordered ColumnExpr}
    (hterm : term ∈ s.order) {n : String} (hn : n ∈ term.target.reads) {x : Expr}
    (hx : (Scope.ofSelectList s.last).lookup n = .ok x) : ∃ r, x = .column r ∧ r.name = n := by
  have hwindow : n ∈ s.windowColumns :=
    OrderedSet.mem_extend.2 (Or.inr (List.mem_flatMap.2 ⟨term, hterm, hn⟩))
  exact exists_column_of_not_derived (not_readsDerived_of_addColumns hne h n hwindow) hx

/-- After columns are added in place, the recorded ordering means the ordering of the rows with the
new columns in the place of those whose names they took. -/
lemma resolveOrder_of_inPlace (hs : s.Anchored) (hf : s.functions.Standard) (hstep : s.OrderInStep)
    (hne : columns ≠ []) (h : s.addColumns columns s.last s.aliases = .ok (q, s.aliases)) :
    s.resolveOrder (.ofSelectList q) s.order = .ok (bindOrder (atName q) s.last.orderBy) := by
  refine resolveOrder_rebind (hf.rebuilds .scalar) ?_ hstep
  intro term hterm
  obtain ⟨_, hnames⟩ := hs.order term hterm
  intro n hn x hx
  obtain ⟨r, rfl, rfl⟩ := lookup_of_inPlace hne h hterm hn hx
  exact lookup_atName (mem_columnNames_addColumns h (hnames _ hn))

/-- Every column of the ordering of the rows is one that the stage passes on under its name. -/
lemma lookup_orderBy (hf : s.functions.Standard) (hstep : s.OrderInStep)
    (hne : columns ≠ []) (h : s.addColumns columns s.last s.aliases = .ok (q, s.aliases)) :
    ∀ term ∈ s.last.orderBy, ∀ r ∈ term.target.refs,
      (Scope.ofSelectList s.last).lookup r.name = .ok (.column r) := by
  refine within_resolveOrder hf.passesReferences ?_ hstep
  intro term hterm n hn x hx
  obtain ⟨r, rfl, rfl⟩ := lookup_of_inPlace hne h hterm hn hx
  intro r' hr'
  obtain rfl : r' = r := List.mem_singleton.1 hr'
  exact hx

end Replaced

end QueryState

open QueryState

/-- In every query that can be built, the first `arrange` orders the rows by what it records, and as
long as this is so, windows are ordered as the rows are. A `mutate` that extends the stage in
place keeps both orderings as they are written; they still agree exactly when no column in the
ordering of the rows was replaced under its name. -/
theorem order_in_step_iff {tables : Set TableInfo} {s : QueryState}
    (h : Reachable tables {f | f.Standard} s) :
    (∀ terms t, s.order = [] → s.last.orderBy = [] → s.arrange terms = .ok t → t.OrderInStep) ∧
    (s.OrderInStep → ∀ placement windows,
      s.windowContext (.ofSelectList s.last) placement = .ok windows →
        windows.orderBy = s.last.orderBy) ∧
    ∀ columns t, s.OrderInStep → s.mutate columns = .ok t → t.aliases = s.aliases →
      t.order = s.order ∧ t.last.orderBy = s.last.orderBy ∧
        (t.OrderInStep ↔ ∀ term ∈ s.last.orderBy, ∀ r ∈ term.target.refs,
          (Scope.ofSelectList t.last).lookup r.name =
            (Scope.ofSelectList s.last).lookup r.name) := by
  have hs : s.Anchored := .reachable h
  have hf : s.functions.Standard := h.functions_mem
  refine ⟨fun terms t => OrderInStep.arrange, fun hstep _ _ => hstep.windowContext, ?_⟩
  intro columns t hstep hmutate haliases
  by_cases hne : columns = []
  · subst hne
    cases hmutate
    exact ⟨rfl, rfl, fun _ _ _ _ _ => rfl, fun _ => hstep⟩
  obtain ⟨hnil, _⟩ | ⟨q, aliases, hadd, rfl⟩ := mutate_cases hmutate
  · exact absurd hnil hne
  obtain rfl : aliases = s.aliases := haliases
  have horderBy : q.orderBy = s.last.orderBy := (orderBy_addColumns hadd).2 rfl
  have hresolved := resolveOrder_of_inPlace hs hf hstep hne hadd
  have hcolumns := lookup_orderBy hf hstep hne hadd
  refine ⟨rfl, horderBy, ?_⟩
  calc (s.push q s.aliases).OrderInStep
      ↔ s.resolveOrder (.ofSelectList q) s.order = .ok q.orderBy := Iff.rfl
    _ ↔ bindOrder (atName q) s.last.orderBy = s.last.orderBy := by
        rw [hresolved, horderBy, Except.ok.injEq]
    _ ↔ ∀ term ∈ s.last.orderBy, ∀ r ∈ term.target.refs, atName q r = .column r :=
        bindOrder_eq_self
    _ ↔ _ := by
        refine forall₂_congr fun term hterm => forall₂_congr fun r hr => ?_
        have hbefore := hcolumns term hterm r hr
        have hname : r.name ∈ s.columnNames :=
          Scope.mem_names_ofSelectList.1 (Scope.mem_names_of_lookup hbefore)
        have hafter := lookup_atName (mem_columnNames_addColumns hadd hname)
        rw [hbefore, push, hafter, Except.ok.injEq]

/-- A new column beside the one that people are sorted by leaves the two orderings in step. -/
theorem numbered_people_in_step : ∃ s t,
    (people .postgres).arrange [.column "x"] = .ok s ∧ s.OrderInStep ∧
    s.mutate [("y", .call .add [.column "x", .literal (.int 1)] [])] = .ok t ∧
    t.aliases = s.aliases ∧ t.OrderInStep := by
  have hrun : ∃ s, (people .postgres).arrange [.column "x"] = .ok s ∧
      s.last.orderBy = [⟨.column (.stored (.aliased ⟨"people", 0⟩) "x"), .asc⟩] ∧
      ∃ t, s.mutate [("y", .call .add [.column "x", .literal (.int 1)] [])] = .ok t ∧
        t.aliases = s.aliases ∧
        (Scope.ofSelectList t.last).lookup "x" = (Scope.ofSelectList s.last).lookup "x" :=
    ⟨_, rfl, rfl, _, rfl, rfl, rfl⟩
  obtain ⟨s, hs, horderBy, t, ht, haliases, hlookup⟩ := hrun
  have hpeople : Reachable {peopleTable} {f | f.Standard} (people .postgres) :=
    .table "people" (FunctionTable.builtIn_standard .postgres) rfl
  have hstep : s.OrderInStep := (order_in_step_iff hpeople).1 _ s rfl rfl hs
  obtain ⟨_, _, hiff⟩ :=
    (order_in_step_iff (hpeople.step (.arrange hs))).2.2 _ t hstep ht haliases
  refine ⟨s, t, hs, hstep, ht, haliases, hiff.2 ?_⟩
  rw [horderBy]
  simpa [Expr.refs, Sql.ColumnRef.name] using hlookup

/-- When the numbers are negated, people stay sorted by number, but the recorded ordering means the
negated number; a copy of the number would still mean the right one. -/
theorem negated_people_out_of_step : ∃ r s t,
    (people .postgres).mutate [("k", .column "x")] = .ok r ∧ r.arrange [.column "x"] = .ok s ∧
    s.OrderInStep ∧ s.mutate [("x", .call .negate [.column "x"] [])] = .ok t ∧
    t.aliases = s.aliases ∧ ¬t.OrderInStep ∧
    t.resolveOrder (.ofSelectList t.last) [⟨.column "k", .asc⟩] = .ok t.last.orderBy := by
  have hrun : ∃ r, (people .postgres).mutate [("k", .column "x")] = .ok r ∧
      ∃ s, r.arrange [.column "x"] = .ok s ∧ s.OrderInStep ∧
        ∃ t, s.mutate [("x", .call .negate [.column "x"] [])] = .ok t ∧ t.aliases = s.aliases ∧
          t.last.orderBy = [⟨.column (.stored (.aliased ⟨"people", 0⟩) "x"), .asc⟩] ∧
          t.resolveOrder (.ofSelectList t.last) t.order =
            .ok [⟨.negate (.column (.stored (.aliased ⟨"people", 0⟩) "x")), .asc⟩] ∧
          t.resolveOrder (.ofSelectList t.last) [⟨.column "k", .asc⟩] = .ok t.last.orderBy :=
    ⟨_, rfl, _, rfl, rfl, _, rfl, rfl, rfl, rfl, rfl⟩
  obtain ⟨r, hr, s, hs, hstep, t, ht, haliases, horderBy, hresolved, hcopy⟩ := hrun
  refine ⟨r, s, t, hr, hs, hstep, ht, haliases, ?_, hcopy⟩
  rw [OrderInStep, hresolved, horderBy]
  simp

end PipelineSql
