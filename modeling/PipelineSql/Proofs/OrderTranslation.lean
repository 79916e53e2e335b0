import PipelineSql.Proofs.Acceptance
import PipelineSql.Proofs.GroupsAndOrder

/-!
# Translating a recorded ordering again

`arrange` resolves its terms where names stand for the expressions of a select list, and later verbs
resolve them once more where names stand for columns. A term that was accepted translates again
exactly when it gives the types of its casts as texts.
-/

namespace PipelineSql

open Sql (Expr Select TableAlias Ordered)

lemma exists_mapM_eq_ok {ε α β : Type} {f : α → Except ε β} {l : List α}
    (h : ∀ a ∈ l, ∃ b, f a = .ok b) : ∃ bs, l.mapM f = .ok bs := by
  cases hrun : l.mapM f with
  | ok bs => exact ⟨bs, rfl⟩
  | error e =>
    obtain ⟨a, ha, herror⟩ := exists_of_mapM_eq_error hrun
    obtain ⟨b, hb⟩ := h a ha
    rw [hb] at herror
    cases herror

namespace QueryState

variable {s t u : QueryState}

/-- Terms that give the types of their casts can be translated wherever their columns are. -/
def OrderTranslatable (dialect : Dialect) (order : List (Ordered ColumnExpr)) : Prop :=
  ∀ term ∈ order, term.target.castsByText = true → term.target.Translatable dialect

lemma OrderTranslatable.renameOrder {dialect : Dialect} {order : List (Ordered ColumnExpr)}
    (h : OrderTranslatable dialect order) (renames : OrderedMap String) :
    OrderTranslatable dialect (renameOrder renames order) := by
  intro term hterm hcasts
  obtain ⟨old, hold, rfl⟩ := List.mem_map.1 hterm
  rw [ColumnExpr.castsByText_rename] at hcasts
  exact (h old hold hcasts).rename _

/-- What `arrange` adds has been compiled, in the scope of a select list. -/
lemma OrderTranslatable.arrange {dialect : Dialect} (hf : s.functions = .builtIn dialect)
    (hs : OrderTranslatable dialect s.order) {terms : List ColumnExpr}
    (h : s.arrange terms = .ok t) : OrderTranslatable dialect t.order := by
  rcases arrange_cases h with rfl | ⟨base, aliases, resolved, _, hresolved, rfl⟩
  · exact hs
  · intro term hterm hcasts
    rcases List.mem_append.1 hterm with hold | hnew
    · exact hs term hold hcasts
    · obtain ⟨_, _, hcompile⟩ := exists_of_forall₂ (mapM_eq_ok.1 hresolved).flip hnew
      simp only [bind_eq_ok] at hcompile
      obtain ⟨x, hx, _⟩ := hcompile
      obtain ⟨⟨y, found⟩, hrun, _⟩ := map_eq_ok.1 hx
      obtain ⟨_, htranslatable, _⟩ := (CompileEnv.translatableCases hf).compileFrom _ hrun
      obtain ⟨e, _, rfl⟩ := List.mem_map.1 hnew
      exact htranslatable (shaped_orderTerm e.shaped_shape) hcasts

lemma OrderTranslatable.step {dialect : Dialect} (hf : s.functions = .builtIn dialect)
    (hs : OrderTranslatable dialect s.order) (h : Step s t) :
    OrderTranslatable dialect t.order := by
  cases h with
  | select h =>
    obtain ⟨chosen, _, _, horder⟩ := columnNames_select h
    rw [horder]
    apply OrderTranslatable.renameOrder
    exact fun term hterm => hs term (List.mem_filter.1 hterm).1
  | rename h =>
    obtain ⟨renames, _, _, _, horder⟩ := columnNames_rename h
    rw [horder]
    exact hs.renameOrder renames
  | filter h =>
    rcases columnNames_filter h with ⟨_, rfl⟩ | ⟨_, _, horder⟩
    · exact hs
    · rw [horder]
      exact hs
  | mutate h =>
    rcases mutate_cases h with ⟨_, rfl⟩ | ⟨q, aliases, _, rfl⟩
    · exact hs
    · exact hs
  | arrange h => exact hs.arrange hf h
  | summarize h =>
    obtain ⟨_, _, _, _, _, _, _, _, _, _, _, rfl⟩ := summarize_cases h
    exact fun term hterm => absurd hterm List.not_mem_nil
  | count h =>
    obtain ⟨_, _, _, _, _, _, _, horder⟩ := columnNames_count h
    simp [OrderTranslatable, horder]
  | distinct h =>
    obtain ⟨_, _, _, _, horder⟩ := columnNames_distinct h
    simp [OrderTranslatable, horder]
  | head n => exact hs
  | groupBy h =>
    obtain ⟨groups, rfl⟩ := groupBy_cases h
    exact hs
  | ungroup => exact hs

lemma OrderTranslatable.reachable {tables : Set TableInfo}
    (h : Reachable tables {f | ∃ dialect, f = .builtIn dialect} s) :
    ∃ dialect, s.functions = .builtIn dialect ∧ OrderTranslatable dialect s.order := by
  obtain ⟨dialect, hf⟩ := h.functions_mem
  refine ⟨dialect, hf, ?_⟩
  induction h with
  | table collection _ _ => exact fun term hterm => absurd hterm List.not_mem_nil
  | step _ hstep ih =>
    rw [hstep.functions_eq] at hf
    exact (ih hf).step hf hstep
  | join _ _ hjoin _ _ =>
    obtain ⟨_, _, _, _, _, _, _, rfl, _⟩ := join_parts hjoin
    exact fun term hterm => absurd hterm List.not_mem_nil

/-- Where all columns can be seen, the grouping and an ordering by texts are resolved. -/
lemma windowContext_isOk (hs : s.Anchored) {dialect : Dialect}
    (hf : s.functions = .builtIn dialect) (horder : OrderTranslatable dialect s.order)
    (hcasts : ∀ term ∈ s.order, term.target.castsByText = true) {scope : Scope}
    (hscope : ∀ n ∈ s.columnNames, n ∈ scope.names) (placement : Placement) :
    ∃ windows, s.windowContext scope placement = .ok windows := by
  have hgroups : ∀ g ∈ s.groups.toList, ∃ x, scope.lookup g = .ok x := by
    intro g hg
    exact CompileEnv.exists_lookup_of_mem_names (hscope g (hs.groups g hg))
  have hterms : ∀ term ∈ s.order, ∃ r : Ordered Expr,
      (do return ⟨← s.compileIn scope .scalar {} term.target, term.direction⟩ :
        Except Error (Ordered Expr)) = .ok r := by
    intro term hterm
    have hreads : ∀ n ∈ term.target.reads, n ∈ scope.names := fun n hn =>
      hscope n ((hs.order term hterm).2 n hn)
    obtain ⟨x, hx⟩ := CompileEnv.givesAlways_of_translatable {}
      (horder term hterm (hcasts term hterm)) hreads
    refine ⟨⟨x, term.direction⟩, ?_⟩
    simp [compileIn, CompileEnv.compileExpr, CompileEnv.compile, hf, hx [], Except.map]
  obtain ⟨partitionBy, hpartition⟩ := exists_mapM_eq_ok hgroups
  obtain ⟨orderBy, hresolved⟩ := exists_mapM_eq_ok hterms
  refine ⟨⟨partitionBy, orderBy, placement⟩, ?_⟩
  simp only [windowContext, resolveOrder, bind_eq_ok, pure_eq_ok]
  exact ⟨partitionBy, hpartition, orderBy, hresolved, rfl⟩

/-- A term that does not give the types of its casts cannot be resolved among columns. -/
lemma windowContext_castsByText {dialect : Dialect} (hf : s.functions = .builtIn dialect)
    {scope : Scope} {placement : Placement} {windows : WindowContext}
    (hscope : ∀ n ∈ s.windowColumns, ∀ x, scope.lookup n = .ok x → x.isColumn = true)
    (h : s.windowContext scope placement = .ok windows) :
    ∀ term ∈ s.order, term.target.castsByText = true := by
  intro term hterm
  simp only [windowContext, resolveOrder, bind_eq_ok, pure_eq_ok] at h
  obtain ⟨_, _, _, hresolved, _⟩ := h
  obtain ⟨_, _, hcompile⟩ := exists_of_forall₂ (mapM_eq_ok.1 hresolved).flip hterm
  simp only [bind_eq_ok] at hcompile
  obtain ⟨x, hx, _⟩ := hcompile
  obtain ⟨⟨y, found⟩, hrun, _⟩ := map_eq_ok.1 hx
  refine ((CompileEnv.castsByTextCases hf).compileFrom _ hrun ?_).2.1
  intro n hn
  refine hscope n (OrderedSet.mem_extend.2 (Or.inr ?_))
  exact List.mem_flatMap.2 ⟨term, hterm, hn⟩

lemma exists_project_eq_ok {scope : Scope} {names : List String}
    (h : ∀ n ∈ names, n ∈ scope.names) : ∃ list, scope.project names = .ok list := by
  apply exists_mapM_eq_ok
  intro n hn
  obtain ⟨x, hx⟩ := CompileEnv.exists_lookup_of_mem_names (h n hn)
  exact ⟨(n, x), by rw [hx]; rfl⟩

/-- A filter that has predicates and succeeds has resolved the ordering among columns. -/
lemma castsByText_of_filter {dialect : Dialect} (hf : s.functions = .builtIn dialect)
    {predicates : List ColumnExpr} (hne : predicates ≠ []) (h : s.filter predicates = .ok t) :
    ∀ term ∈ s.order, term.target.castsByText = true := by
  rcases filter_cases h with ⟨hnil, _⟩ | ⟨_, _, _, _, _, _, _, _, _, _, rfl, hwindows, _⟩
  · exact absurd hnil hne
  · refine windowContext_castsByText hf ?_ hwindows
    exact fun n _ x hx => isColumn_lookup_ofSubquery hx

/-- So has a mutate that adds a column: where one of the ordering is computed, it wraps. -/
lemma castsByText_of_mutate {dialect : Dialect} (hf : s.functions = .builtIn dialect)
    {columns : List (String × ColumnExpr)} (hne : columns ≠ []) (h : s.mutate columns = .ok t) :
    ∀ term ∈ s.order, term.target.castsByText = true := by
  rcases mutate_cases h with ⟨hnil, _⟩ | ⟨q, aliases, hadd, _⟩
  · exact absurd hnil hne
  cases columns with
  | nil => exact absurd rfl hne
  | cons c rest =>
    simp only [addColumns, bind_eq_ok] at hadd
    obtain ⟨⟨q', aliases'⟩, hfirst, _⟩ := hadd
    obtain ⟨base, windows, _, hwrap, hwindows, _, _⟩ := addColumn_cases hfirst
    refine windowContext_castsByText hf ?_ hwindows
    intro n hn x hx
    refine isColumn_of_wrapIf hwrap ?_ (List.mem_append_right c.2.shape.reads hn) hx
    intro hneeded
    exact (Bool.or_eq_false_iff.1 hneeded).2

/-- One added column fails when the windows cannot be resolved, or else by its expression. -/
lemma addColumn_error_cases {name : String} {e : ColumnExpr} {q : Select}
    {aliases : Sql.AliasCounter} {error : Error}
    (h : s.addColumn name e q aliases = .error error) :
    ∃ base aliases', wrapIf (q.changesRowSet || !q.groupBy.isEmpty ||
        readsDerived q (e.reads ++ s.windowColumns.toList)) q aliases = (base, aliases') ∧
      (s.windowContext (.ofSelectList base) .inPlace = .error error ∨
        ∃ windows, s.windowContext (.ofSelectList base) .inPlace = .ok windows ∧
          s.compileIn (.ofSelectList base) .window windows e = .error error) := by
  unfold addColumn at h
  refine ⟨_, _, rfl, ?_⟩
  rcases bind_eq_error.1 h with hcontext | ⟨windows, hcontext, h⟩
  · exact Or.inl hcontext
  rcases bind_eq_error.1 h with hcompile | ⟨_, _, hpure⟩
  · exact Or.inr ⟨windows, hcontext, hcompile⟩
  · cases hpure

section Failures

variable {dialect : Dialect} (hs : s.Anchored) (hf : s.functions = .builtIn dialect)
  (horder : OrderTranslatable dialect s.order)
  (hcasts : ∀ term ∈ s.order, term.target.castsByText = true)

include hs hf horder hcasts

/-- A filter fails by its predicates only. -/
lemma filter_error {predicates : List ColumnExpr} {error : Error}
    (h : s.filter predicates = .error error) :
    ∃ windows, s.windowContext (.ofSubquery s.last ⟨"subquery", s.aliases.next⟩)
        (.hoisted ⟨"windows", s.aliases.next + 1⟩) = .ok windows ∧
      CompileEnv.compileAll ⟨s.functions, .ofSubquery s.last ⟨"subquery", s.aliases.next⟩, windows⟩
        .window (predicates.map .shape) = .error error := by
  have hscope : ∀ n ∈ s.columnNames,
      n ∈ (Scope.ofSubquery s.last ⟨"subquery", s.aliases.next⟩).names := fun n hn =>
    Scope.mem_names_ofSubquery.2 hn
  obtain ⟨windows, hwindows⟩ := windowContext_isOk hs hf horder hcasts hscope
    (.hoisted ⟨"windows", s.aliases.next + 1⟩)
  refine ⟨windows, hwindows, ?_⟩
  cases predicates with
  | nil => cases h
  | cons p ps =>
    simp only [filter, Sql.AliasCounter.make] at h
    rcases bind_eq_error.1 h with hcontext | ⟨windows', hcontext, h⟩
    · rw [hwindows] at hcontext
      cases hcontext
    rw [hwindows] at hcontext
    cases hcontext
    rcases bind_eq_error.1 h with hcompile | ⟨⟨conditions, found⟩, _, h⟩
    · exact hcompile
    -- the columns that the statement lists are all in the stage below it
    rcases bind_eq_error.1 h with hproject | ⟨_, _, h⟩
    · have hbelow : ∀ n ∈ s.orderedColumnNames, n ∈ (Scope.ofSubquery (Select.reading
          ((Scope.ofSubquery s.last ⟨"subquery", s.aliases.next⟩).selectList ++
            found.map fun w => (w.label, w.expression)) s.last ⟨"subquery", s.aliases.next⟩)
          ⟨"windows", s.aliases.next + 1⟩).names := by
        intro n hn
        have hname := hscope n ((mem_orderedColumnNames hs).1 hn)
        rw [Scope.mem_names_ofSubquery]
        simp only [Select.columnNames, Select.reading, List.map_append]
        exact List.mem_append_left _ hname
      obtain ⟨list, hlist⟩ := exists_project_eq_ok hbelow
      rw [hlist] at hproject
      cases hproject
    · cases h

/-- A mutate fails by the expression of one of its columns only. -/
lemma addColumns_error {columns : List (String × ColumnExpr)} {q : Select}
    {aliases : Sql.AliasCounter} {error : Error} (hq : ∀ n ∈ s.columnNames, n ∈ q.columnNames)
    (h : s.addColumns columns q aliases = .error error) :
    ∃ c ∈ columns, ∃ base windows, s.windowContext (.ofSelectList base) .inPlace = .ok windows ∧
      s.compileIn (.ofSelectList base) .window windows c.2.shape = .error error := by
  induction columns generalizing q aliases with
  | nil => cases h
  | cons c rest ih =>
    rw [addColumns] at h
    rcases bind_eq_error.1 h with hadd | ⟨⟨q', aliases'⟩, hadd, h⟩
    · refine ⟨c, List.mem_cons_self, ?_⟩
      obtain ⟨base, aliases', hwrap, hfails⟩ := addColumn_error_cases hadd
      have hnames : base.columnNames = q.columnNames := columnNames_wrapIf hwrap
      have hscope : ∀ n ∈ s.columnNames, n ∈ (Scope.ofSelectList base).names := by
        intro n hn
        rw [Scope.mem_names_ofSelectList, hnames]
        exact hq n hn
      obtain ⟨windows, hwindows⟩ := windowContext_isOk hs hf horder hcasts hscope .inPlace
      rcases hfails with hcontext | hcompile
      · rw [hwindows] at hcontext
        cases hcontext
      · exact ⟨base, hcompile⟩
    · have hq' : ∀ n ∈ s.columnNames, n ∈ q'.columnNames := by
        intro n hn
        rw [columnNames_addColumn hadd]
        split
        · exact hq n hn
        · exact List.mem_append_left _ (hq n hn)
      obtain ⟨d, hd, hfails⟩ := ih hq' h
      exact ⟨d, List.mem_cons_of_mem _ hd, hfails⟩

end Failures

end QueryState

open QueryState

/-- Of every query that can be built from the tables of the dialects, a recorded term translates
through a subquery exactly when it gives the types of its casts as texts. When all of them do,
filters fail by their predicates only and mutates by the expressions of their columns only, with
the ordering resolved; and otherwise every one of them fails. -/
theorem recorded_order_translates_iff {tables : Set TableInfo} {s : QueryState}
    (h : Reachable tables {f | ∃ dialect, f = .builtIn dialect} s) :
    (∀ term ∈ s.order, ∀ tableAlias,
      (∃ x, s.compileIn (.ofSubquery s.last tableAlias) .scalar {} term.target = .ok x) ↔
        term.target.castsByText = true) ∧
    ((∀ term ∈ s.order, term.target.castsByText = true) →
      (∀ predicates error, s.filter predicates = .error error →
        ∃ scope windows placement, s.windowContext scope placement = .ok windows ∧
          CompileEnv.compileAll ⟨s.functions, scope, windows⟩ .window (predicates.map .shape) =
            .error error) ∧
      ∀ columns error, s.mutate columns = .error error →
        ∃ c ∈ columns, ∃ scope windows placement, s.windowContext scope placement = .ok windows ∧
          s.compileIn scope .window windows c.2.shape = .error error) ∧
    (¬(∀ term ∈ s.order, term.target.castsByText = true) →
      (∀ predicates, predicates ≠ [] → ∃ error, s.filter predicates = .error error) ∧
      ∀ columns, columns ≠ [] → ∃ error, s.mutate columns = .error error) := by
  have hs : s.Anchored := .reachable h
  obtain ⟨dialect, hf, horder⟩ := OrderTranslatable.reachable h
  refine ⟨?_, ?_, ?_⟩
  · intro term hterm tableAlias
    constructor
    · rintro ⟨x, hx⟩
      obtain ⟨⟨y, found⟩, hrun, _⟩ := map_eq_ok.1 hx
      refine ((CompileEnv.castsByTextCases hf).compileFrom _ hrun ?_).2.1
      exact fun n _ x hx => isColumn_lookup_ofSubquery hx
    · intro hcasts
      have hreads : ∀ n ∈ term.target.reads,
          n ∈ (Scope.ofSubquery s.last tableAlias).names := fun n hn =>
        Scope.mem_names_ofSubquery.2 ((hs.order term hterm).2 n hn)
      obtain ⟨x, hx⟩ := CompileEnv.givesAlways_of_translatable {}
        (horder term hterm hcasts) hreads
      refine ⟨x, ?_⟩
      simp [compileIn, CompileEnv.compileExpr, CompileEnv.compile, hf, hx [], Except.map]
  · intro hcasts
    constructor
    · intro predicates error hfilter
      obtain ⟨windows, hwindows, hcompile⟩ := filter_error hs hf horder hcasts hfilter
      exact ⟨_, windows, _, hwindows, hcompile⟩
    · intro columns error hmutate
      cases columns with
      | nil => cases hmutate
      | cons c rest =>
        rcases bind_eq_error.1 hmutate with hadd | ⟨_, _, hpure⟩
        · obtain ⟨d, hd, base, windows, hwindows, hcompile⟩ :=
            addColumns_error hs hf horder hcasts (fun n hn => hn) hadd
          exact ⟨d, hd, _, windows, _, hwindows, hcompile⟩
        · cases hpure
  · intro hcasts
    constructor
    · intro predicates hne
      cases hfilter : s.filter predicates with
      | error error => exact ⟨error, rfl⟩
      | ok t => exact absurd (castsByText_of_filter hf hne hfilter) hcasts
    · intro columns hne
      cases hmutate : s.mutate columns with
      | error error => exact ⟨error, rfl⟩
      | ok t => exact absurd (castsByText_of_mutate hf hne hmutate) hcasts

/-- People by a cast to a given type, and then by one to a type that stands in a column. -/
def castOrders : Request where
  collection := "people"
  pipeline := [.mutate (.ofList [("t", .literal (.str "int"))]),
    .arrange [.call .castTo [.column "x", .literal (.str "float")] [],
      .call .castTo [.column "x", .column "t"] []]]

theorem castOrders_translate_apart : ∃ s,
    castOrders.run peopleCatalog (.builtIn .postgres) = .ok s ∧
    ∃ given read, s.order = [given, read] ∧
      (∀ tableAlias, ∃ x,
        s.compileIn (.ofSubquery s.last tableAlias) .scalar {} given.target = .ok x) ∧
      ∀ tableAlias, ¬∃ x,
        s.compileIn (.ofSubquery s.last tableAlias) .scalar {} read.target = .ok x := by
  have hrun : (castOrders.run peopleCatalog (.builtIn .postgres)).map QueryState.order =
      .ok [Ordered.mk (.call .castTo [.column "x", .literal (.str "float")] []) .asc,
        Ordered.mk (.call .castTo [.column "x", .column "t"] []) .asc] := by decide +kernel
  obtain ⟨s, hs, horder⟩ := map_eq_ok.1 hrun
  have hreach : Reachable peopleCatalog.infos {f | ∃ dialect, f = .builtIn dialect} s := by
    refine Reachable.mono ?_ (castOrders.run_reachable hs)
    exact fun f hf => ⟨.postgres, hf⟩
  obtain ⟨hiff, _, _⟩ := recorded_order_translates_iff hreach
  rw [horder] at hiff
  refine ⟨s, hs, _, _, horder, ?_, ?_⟩
  · exact fun tableAlias => (hiff _ (by simp) tableAlias).2 (by decide)
  · intro tableAlias hx
    exact absurd ((hiff _ (by simp) tableAlias).1 hx) (by decide)

/-- An ordering that was accepted makes a filter fail that succeeds without it. -/
theorem castOrders_break_filter : ∃ s, castOrders.run peopleCatalog (.builtIn .postgres) = .ok s ∧
    ∃ predicate, s.filter [predicate] = .error (.invalidArguments .castTo .typeNotText) ∧
      ({ s with order := [] }.filter [predicate]).isOk = true := by
  have hrun : (castOrders.run peopleCatalog (.builtIn .postgres)).map (fun s =>
      ((s.filter [.call .greaterThan [.column "x", .literal (.int 1)] []]).map fun _ => (),
      ({ s with order := [] }.filter
        [.call .greaterThan [.column "x", .literal (.int 1)] []]).isOk)) =
      .ok (.error (.invalidArguments .castTo .typeNotText), true) := by decide +kernel
  obtain ⟨s, hs, hresults⟩ := map_eq_ok.1 hrun
  refine ⟨s, hs, .call .greaterThan [.column "x", .literal (.int 1)] [], ?_, ?_⟩
  · exact map_eq_error.1 (congrArg Prod.fst hresults)
  · exact congrArg Prod.snd hresults

end PipelineSql
