import PipelineSql.Proofs.Hoisting
import PipelineSql.Proofs.OrderInStep

/-!
# Columns added in place

A column is added to a query as it stands, or to all of its columns read through a subquery. Both
ways compile the same expression: what the first compiles is what the second compiles, with the
definitions of the query in the place of the columns of the subquery. And columns are added one
after another, so that it does not matter how many of them are added at once.
-/

namespace PipelineSql

open Sql (Expr Select TableAlias ColumnRef AliasCounter)
open CompileEnv (compile)

namespace Sql.Select

/-- What a column that is read through an alias of a query is defined as in the query. -/
def definition (q : Select) (a : TableAlias) (r : ColumnRef) : Expr :=
  if r.table = .aliased a then QueryState.atName q r else .column r

lemma definition_labelled (q : Select) (a : TableAlias) (n : String) :
    q.definition a (.labelled (.aliased a) n) =
      QueryState.atName q (.labelled (.aliased a) n) := by
  simp [definition, ColumnRef.table]

/-- A reference that names a column of a query if it goes through an alias of the query. -/
def Names (q : Select) (a : TableAlias) (r : ColumnRef) : Prop :=
  r.table = .aliased a → r.name ∈ q.columnNames

/-- Adds or replaces a column of a query. -/
def put (q : Select) (name : String) (x : Expr) : Select :=
  { q with columns := putEntry name x q.columns }

lemma put_injective {q : Select} {name : String} {x y : Expr} (h : q.put name x = q.put name y) :
    x = y := by
  have hlookup := congrArg (fun p : Select => p.columns.lookup name) h
  simpa [put, lookup_putEntry] using hlookup

/-- Definitions leave nothing of the alias that they are put in the place of. -/
lemma within_definition {q : Select} {a : TableAlias}
    (hq : ∀ c ∈ q.columns, c.2.Within (Elsewhere a)) {e : Expr} (he : e.Within (q.Names a)) :
    (e.bindColumns (q.definition a)).Within (Elsewhere a) := by
  intro r hr
  rw [Expr.refs_bindColumns, List.mem_flatMap] at hr
  obtain ⟨p, hp, hr⟩ := hr
  unfold definition at hr
  split at hr
  · rename_i htable
    have hlookup := QueryState.lookup_atName (he p hp htable)
    exact hq _ (Scope.mem_of_lookup_ofSelectList hlookup) r hr
  · rename_i htable
    obtain rfl : r = p := List.mem_singleton.1 hr
    exact htable

lemma derivedColumns_throughSubquery (q : Select) (a : TableAlias) (n : String) :
    n ∉ (q.throughSubquery a).derivedColumns := by
  simp [derivedColumns, throughSubquery, reading, Expr.labelled, Expr.exposes, ColumnRef.name]

end Sql.Select

/-- Window clauses whose references through an alias of a query name columns of it. -/
structure WindowContext.NamesColumns (c : WindowContext) (q : Select) (a : TableAlias) : Prop where
  partitionBy : ∀ e ∈ c.partitionBy, e.Within (q.Names a)
  orderBy : ∀ t ∈ c.orderBy, t.target.Within (q.Names a)

namespace Scope

/-- The columns of a subquery stand for its definitions. -/
lemma rebinds_definition (q : Select) (a : TableAlias) (names : List String) :
    (ofSubquery q a).Rebinds (.ofSelectList q) (q.definition a) id names := by
  intro n _ x hx
  obtain ⟨rfl, hn⟩ := lookup_ofSubquery hx
  rw [Expr.bindColumns_labelled, Select.definition_labelled]
  exact QueryState.lookup_atName (r := .labelled (.aliased a) n) hn

/-- The columns that a query passes on can be read through a subquery instead. A definition need not
go back: a text names the type of a cast, and the column that it defines does not. -/
lemma rebinds_labelled {q : Select} {names : List String} (h : ∀ n ∈ names, n ∉ q.derivedColumns)
    (a : TableAlias) :
    (ofSelectList q).Rebinds (.ofSubquery q a) (fun r => .labelled a r.name) id names := by
  intro n hn x hx
  obtain ⟨r, rfl, rfl⟩ := QueryState.exists_column_of_not_derived (h n hn) hx
  exact lookup_ofSubquery_of_mem (mem_names_ofSelectList.1 (mem_names_of_lookup hx)) a

end Scope

namespace CompileEnv

variable {functions : FunctionTable} {scope scope' : Scope} {windows : WindowContext}
  {mode : Mode} {f : ColumnRef → Expr} {e : ColumnExpr} {r : Expr} {found : List LabelledWindow}

/-- Where the same names are in use, windows also keep their labels. -/
lemma compile_rebinds (hbuild : functions.Rebuilds mode f) (hplace : windows.placement = .inPlace)
    (hnames : scope'.names = scope.names) (hreads : scope.Rebinds scope' f id e.reads)
    (h : compile ⟨functions, scope, windows⟩ mode e = .ok (r, found)) :
    compile ⟨functions, scope', windows.bindColumns f⟩ mode e =
      .ok (r.bindColumns f, found.map (LabelledWindow.bindColumns f)) := by
  have hlabel : ∀ found, freshLabel scope' (found.map (LabelledWindow.bindColumns f)) =
      freshLabel scope found := by
    intro found
    simp [freshLabel, hnames, Function.comp_def, LabelledWindow.bindColumns]
  have hfollows : Follows ⟨functions, scope, windows⟩
      ⟨functions, scope', windows.bindColumns f⟩ mode mode f id
      (fun e => scope.Rebinds scope' f id e.reads)
      fun found other => other = found.map (LabelledWindow.bindColumns f) := by
    refine follows_rebinds hbuild hplace ?_ ?_
    · rintro found _ rfl
      exact List.length_map _
    · rintro found _ x rfl
      rw [hlabel, List.map_append]
      rfl
  obtain ⟨_, rfl, hrun⟩ := hfollows.compile rfl hreads h
  exact hrun

/-- What is compiled over the columns of a subquery, and every window of it, names such columns. -/
lemma names_of_compile {q : Select} {a : TableAlias} (hf : functions.Standard)
    (hplace : windows.placement = .inPlace) (hwindows : windows.NamesColumns q a)
    (h : compile ⟨functions, .ofSubquery q a, windows⟩ mode e = .ok (r, found)) :
    r.Within (q.Names a) ∧ ∀ w ∈ found, w.expression.Within (q.Names a) := by
  have hscope : ∀ n ∈ e.reads, ∀ x, (Scope.ofSubquery q a).lookup n = .ok x →
      x.Within (q.Names a) := by
    intro n _ x hx
    refine (QueryState.within_lookup_ofSubquery hx).mono ?_
    rintro _ ⟨name, hname, rfl⟩ _
    exact hname
  have rules := scopingRules ⟨functions, .ofSubquery q a, windows⟩ mode hf.passesReferences
    hwindows.partitionBy hwindows.orderBy
  obtain ⟨new, rfl, hresult, _, hfound⟩ := rules.compileFrom h hscope
  refine ⟨(hresult r List.mem_cons_self).mono ?_, hfound⟩
  rintro p (hp | ⟨table, htable, _⟩)
  · exact hp
  · rw [hplace] at htable
    cases htable

end CompileEnv

namespace QueryState

variable {s : QueryState} {scope scope' : Scope} {f : ColumnRef → Expr}

/-- The grouping and the ordering of a query are resolved over other columns as over the given
ones. -/
lemma windowContext_rebinds {placement : Placement} {windows : WindowContext}
    (hbuild : s.functions.Rebuilds .scalar f)
    (hcolumns : scope.Rebinds scope' f id s.windowColumns.toList)
    (h : s.windowContext scope placement = .ok windows) :
    s.windowContext scope' placement = .ok (windows.bindColumns f) := by
  have hmem : ∀ n, n ∈ s.groups ∨ n ∈ s.order.flatMap (fun term => term.target.reads) →
      n ∈ s.windowColumns.toList := fun n hn => OrderedSet.mem_extend.2 hn
  unfold windowContext at h ⊢
  simp only [bind_eq_ok, pure_eq_ok] at h ⊢
  obtain ⟨partitionBy, hpartition, orderBy, horder, rfl⟩ := h
  refine ⟨partitionBy.map (Expr.bindColumns f), ?_, bindOrder f orderBy, ?_, rfl⟩
  · refine mapM_eq_ok.2 (List.forall₂_map_right_iff.2 ?_)
    exact forall₂_imp_mem (mapM_eq_ok.1 hpartition) fun n hn x hx =>
      hcolumns n (hmem n (Or.inl hn)) x hx
  · refine resolveOrder_rebind hbuild (fun term hterm n hn => ?_) horder
    exact hcolumns n (hmem n (Or.inr (List.mem_flatMap.2 ⟨term, hterm, hn⟩)))

/-- A column is added to a query without a subquery around it. -/
def InPlace (s : QueryState) (e : ColumnExpr) (q : Select) : Prop :=
  (q.changesRowSet || !q.groupBy.isEmpty ||
    readsDerived q (e.reads ++ s.windowColumns.toList)) = false

lemma InPlace.not_derived {e : ColumnExpr} {q : Select} (h : s.InPlace e q) :
    ∀ n ∈ e.reads ++ s.windowColumns.toList, n ∉ q.derivedColumns := by
  simp only [InPlace, Bool.or_eq_false_iff] at h
  intro n hn
  simpa using List.any_eq_false.1 h.2 n hn

lemma inPlace_throughSubquery (e : ColumnExpr) (q : Select) (a : TableAlias) :
    s.InPlace e (q.throughSubquery a) := by
  have hderived : readsDerived (q.throughSubquery a) (e.reads ++ s.windowColumns.toList) =
      false := by
    simp [readsDerived, q.derivedColumns_throughSubquery a]
  rw [InPlace, hderived]
  rfl

/-- A column that is added in place over other columns. -/
lemma addColumn_rebinds {name : String} {e : ColumnExpr} {q q' p : Select}
    {aliases aliases' : AliasCounter} (hf : s.functions.Standard) (hq : s.InPlace e q)
    (hq' : s.InPlace e q') (hcolumns : (Scope.ofSelectList q).Rebinds (.ofSelectList q') f id
      (e.reads ++ s.windowColumns.toList))
    (h : s.addColumn name e q aliases = .ok (p, aliases')) :
    ∃ x, p = q.put name x ∧ aliases' = aliases ∧
      s.addColumn name e q' aliases = .ok (q'.put name (x.bindColumns f), aliases) := by
  obtain ⟨base, windows, x, hwrap, hwindows, hx, rfl⟩ := addColumn_cases h
  rw [hq] at hwrap
  cases hwrap
  -- Neither query is wrapped, so that the same steps are taken in the two scopes.
  have hwindows' := windowContext_rebinds (hf.rebuilds .scalar)
    (fun n hn => hcolumns n (List.mem_append_right _ hn)) hwindows
  have hx' := compileIn_rebinds (hf.rebuilds .window) (windowContext_cases hwindows).1
    (fun n hn => hcolumns n (List.mem_append_left _ hn)) hx
  refine ⟨x, rfl, rfl, ?_⟩
  unfold addColumn
  rw [hq']
  simp only [wrapIf, bind_eq_ok, pure_eq_ok]
  exact ⟨_, hwindows', _, hx', rfl⟩

section Several

variable {first second columns : List (String × ColumnExpr)}

lemma addColumns_append (s : QueryState) (q : Select) (aliases : AliasCounter) :
    s.addColumns (first ++ second) q aliases =
      s.addColumns first q aliases >>= fun p => s.addColumns second p.1 p.2 := by
  induction first generalizing q aliases with
  | nil => rfl
  | cons c rest ih =>
    obtain ⟨name, e⟩ := c
    simp only [List.cons_append, addColumns, bind_assoc, ih]

/-- Columns are added with the grouping and the ordering of a query, whatever its stages are. -/
lemma addColumns_push (s : QueryState) (stage : Select) (counter : AliasCounter) (q : Select)
    (aliases : AliasCounter) :
    (s.push stage counter).addColumns columns q aliases = s.addColumns columns q aliases := by
  induction columns generalizing q aliases with
  | nil => rfl
  | cons c rest ih =>
    obtain ⟨name, e⟩ := c
    simp only [addColumns, ih]
    -- One addition reads the functions, the grouping and the ordering, which a new stage keeps.
    rfl

lemma mutate_of_ne_nil (s : QueryState) (h : columns ≠ []) : s.mutate columns =
    s.addColumns columns s.last s.aliases >>= fun p => pure (s.push p.1 p.2) := by
  cases columns with
  | nil => exact absurd rfl h
  | cons c rest => rfl

/-- What is added to a stage could have been added before the stage was recorded. -/
lemma mutate_push (s : QueryState) (q : Select) (aliases : AliasCounter) :
    ((s.push q aliases).mutate columns >>= fun u =>
        pure { u with earlier := (s.push q aliases).earlier }) =
      s.addColumns columns q aliases >>= fun p => pure (s.push p.1 p.2) := by
  by_cases h : columns = []
  · subst h
    rfl
  · rw [mutate_of_ne_nil _ h, addColumns_push, bind_assoc]
    rfl

end Several

end QueryState

open QueryState

/-- Compiling over the columns of a subquery and then putting their definitions in their place is
compiling over the definitions, windows and their labels included, and nothing of the alias is
left. So a column that can be added to a query in place can be added to it through a subquery and
conversely, and the two expressions differ by the definitions alone. -/
theorem compile_through_subquery {functions : FunctionTable} (hf : functions.Standard)
    {q : Select} {a : TableAlias} (hq : ∀ c ∈ q.columns, c.2.Within (Elsewhere a)) :
    (∀ windows mode e r found, windows.placement = .inPlace → windows.NamesColumns q a →
      compile ⟨functions, .ofSubquery q a, windows⟩ mode e = .ok (r, found) →
        compile ⟨functions, .ofSelectList q, windows.bindColumns (q.definition a)⟩ mode e =
          .ok (r.bindColumns (q.definition a),
            found.map (LabelledWindow.bindColumns (q.definition a))) ∧
        (r.bindColumns (q.definition a)).Within (Elsewhere a) ∧
        ∀ w ∈ found, (w.bindColumns (q.definition a)).expression.Within (Elsewhere a)) ∧
    ∀ (s : QueryState) name e aliases, s.functions = functions → s.InPlace e q →
      ∀ p, s.addColumn name e q aliases = .ok p ↔
        ∃ x, s.addColumn name e (q.throughSubquery a) aliases =
            .ok ((q.throughSubquery a).put name x, aliases) ∧
          p = (q.put name (x.bindColumns (q.definition a)), aliases) := by
  refine ⟨?_, ?_⟩
  · intro windows mode e r found hplace hwindows h
    obtain ⟨hr, hfound⟩ := CompileEnv.names_of_compile hf hplace hwindows h
    have hrun := CompileEnv.compile_rebinds (hf.rebuilds mode) hplace (Scope.names_ofSubquery q a).symm
      (Scope.rebinds_definition q a e.reads) h
    exact ⟨hrun, Select.within_definition hq hr,
      fun w hw => Select.within_definition hq (hfound w hw)⟩
  · rintro s name e aliases rfl hinPlace p
    -- The select list through the subquery has the scope of the subquery.
    have hthrough : ∀ w aliases', s.addColumn name e (q.throughSubquery a) aliases =
        .ok (w, aliases') → ∃ x, w = (q.throughSubquery a).put name x ∧ aliases' = aliases ∧
          s.addColumn name e q aliases =
            .ok (q.put name (x.bindColumns (q.definition a)), aliases) := fun _ _ h =>
      addColumn_rebinds hf (inPlace_throughSubquery e q a) hinPlace
        (Scope.rebinds_definition q a _) h
    constructor
    · intro h
      obtain ⟨y, _, _, hwrapped⟩ := addColumn_rebinds hf hinPlace (inPlace_throughSubquery e q a)
        (Scope.rebinds_labelled hinPlace.not_derived a) h
      obtain ⟨x, hx, _, hback⟩ := hthrough _ _ hwrapped
      rw [hx] at hwrapped
      rw [h] at hback
      exact ⟨x, hwrapped, Except.ok.inj hback⟩
    · rintro ⟨x, h, rfl⟩
      obtain ⟨y, hy, _, hback⟩ := hthrough _ _ h
      rw [Select.put_injective hy]
      exact hback

/-- People and, beside their numbers, the doubled numbers. -/
def doubledPeople : Select :=
  (people .postgres).last.put "d" (.binary (.column (.stored (.aliased ⟨"people", 0⟩) "x")) "+"
    (.column (.stored (.aliased ⟨"people", 0⟩) "x")))

/-- The grouping and the ordering of doubled people, read through an alias. -/
def doubledWindows (a : TableAlias) : WindowContext where
  partitionBy := [.labelled a "g"]
  orderBy := [⟨.labelled a "d", .asc⟩]

/-- The running total of the doubled numbers, as a text. -/
def doubledTotal : ColumnExpr :=
  .call .castTo [.call .runningSum [.column "d"] []] [("dtype", .literal (.str "str"))]

/-- The running total is compiled over the doubled numbers as over their definition, and numbers are
negated beside them as they are outside. -/
theorem doubledPeople_through_subquery :
    (∃ r found, compile ⟨.builtIn .postgres, .ofSubquery doubledPeople ⟨"subquery", 1⟩,
        doubledWindows ⟨"subquery", 1⟩⟩ .window doubledTotal = .ok (r, found) ∧
      found.map LabelledWindow.label = ["win1"] ∧
      compile ⟨.builtIn .postgres, .ofSelectList doubledPeople,
        (doubledWindows ⟨"subquery", 1⟩).bindColumns (doubledPeople.definition ⟨"subquery", 1⟩)⟩
        .window doubledTotal = .ok (r.bindColumns (doubledPeople.definition ⟨"subquery", 1⟩),
          found.map (LabelledWindow.bindColumns (doubledPeople.definition ⟨"subquery", 1⟩))) ∧
      (r.bindColumns (doubledPeople.definition ⟨"subquery", 1⟩)).Within
        (Elsewhere ⟨"subquery", 1⟩)) ∧
    ∃ x, (people .postgres).addColumn "y" (.call .negate [.column "x"] [])
        (doubledPeople.throughSubquery ⟨"subquery", 1⟩) ⟨2⟩ =
          .ok ((doubledPeople.throughSubquery ⟨"subquery", 1⟩).put "y" x, ⟨2⟩) ∧
      (people .postgres).addColumn "y" (.call .negate [.column "x"] []) doubledPeople ⟨2⟩ =
        .ok (doubledPeople.put "y" (x.bindColumns (doubledPeople.definition ⟨"subquery", 1⟩)),
          ⟨2⟩) := by
  have hq : ∀ c ∈ doubledPeople.columns, c.2.Within (Elsewhere ⟨"subquery", 1⟩) := by
    unfold Expr.Within Elsewhere
    decide
  have hwindows : (doubledWindows ⟨"subquery", 1⟩).NamesColumns doubledPeople ⟨"subquery", 1⟩ := by
    constructor
    · unfold Expr.Within Select.Names
      decide
    · unfold Expr.Within Select.Names
      decide
  obtain ⟨hcompile, hadd⟩ :=
    compile_through_subquery (FunctionTable.builtIn_standard .postgres) hq
  refine ⟨?_, ?_⟩
  · have hrun : ∃ r found, compile ⟨.builtIn .postgres,
        .ofSubquery doubledPeople ⟨"subquery", 1⟩, doubledWindows ⟨"subquery", 1⟩⟩ .window
        doubledTotal = .ok (r, found) ∧ found.map LabelledWindow.label = ["win1"] :=
      ⟨_, _, rfl, rfl⟩
    obtain ⟨r, found, hrun, hlabels⟩ := hrun
    obtain ⟨hdefined, hwithin, _⟩ := hcompile _ _ _ r found rfl hwindows hrun
    exact ⟨r, found, hrun, hlabels, hdefined, hwithin⟩
  · have hrun : ∃ p, (people .postgres).addColumn "y" (.call .negate [.column "x"] [])
        doubledPeople ⟨2⟩ = .ok p := ⟨_, rfl⟩
    have hinPlace : (people .postgres).InPlace (.call .negate [.column "x"] []) doubledPeople := by
      unfold InPlace
      decide
    obtain ⟨p, hrun⟩ := hrun
    obtain ⟨x, hx, rfl⟩ := (hadd (people .postgres) "y" _ ⟨2⟩ rfl hinPlace p).1 hrun
    exact ⟨x, hx, hrun⟩

/-- Adding two lists of columns at once is adding one after the other: it fails as the first of them
to fail does, and gives the same query with one stage less in its history. -/
theorem mutate_append (s : QueryState) {first : List (String × ColumnExpr)} (hne : first ≠ [])
    (second : List (String × ColumnExpr)) : s.mutate (first ++ second) = do
      let t ← s.mutate first
      let u ← t.mutate second
      return { u with earlier := t.earlier } := by
  rw [mutate_of_ne_nil s (List.append_ne_nil_of_left_ne_nil hne second), mutate_of_ne_nil s hne,
    addColumns_append]
  cases s.addColumns first s.last s.aliases with
  | error e => rfl
  | ok p => exact (mutate_push s p.1 p.2).symm

/-- The running total of a new column is added with it or after it; an unknown column fails both
ways. -/
theorem running_total_after_its_column : ∃ s t u,
    (people .postgres).groupBy [.column "g"] false = .ok s ∧
    s.mutate [("y", .call .negate [.column "x"] [])] = .ok t ∧
    t.mutate [("total", .call .runningSum [.column "y"] [])] = .ok u ∧
    t.aliases ≠ u.aliases ∧
    s.mutate [("y", .call .negate [.column "x"] []),
      ("total", .call .runningSum [.column "y"] [])] = .ok { u with earlier := t.earlier } ∧
    t.mutate [("z", .column "w")] = .error (.unknownColumn "w" ["g", "x", "y"]) ∧
    s.mutate [("y", .call .negate [.column "x"] []), ("z", .column "w")] =
      .error (.unknownColumn "w" ["g", "x", "y"]) := by
  have hrun : ∃ s t u, (people .postgres).groupBy [.column "g"] false = .ok s ∧
      s.mutate [("y", .call .negate [.column "x"] [])] = .ok t ∧
      t.mutate [("total", .call .runningSum [.column "y"] [])] = .ok u ∧
      t.aliases ≠ u.aliases ∧
      t.mutate [("z", .column "w")] = .error (.unknownColumn "w" ["g", "x", "y"]) :=
    ⟨_, _, _, rfl, rfl, rfl, by decide, rfl⟩
  obtain ⟨s, t, u, hs, ht, hu, haliases, hunknown⟩ := hrun
  have hne : [("y", ColumnExpr.call .negate [.column "x"] [])] ≠ [] := List.cons_ne_nil _ _
  have htotal := mutate_append s hne [("total", .call .runningSum [.column "y"] [])]
  have hfails := mutate_append s hne [("z", .column "w")]
  rw [ht] at htotal hfails
  refine ⟨s, t, u, hs, ht, hu, haliases, ?_, hunknown, ?_⟩
  · refine htotal.trans (bind_eq_ok.2 ⟨t, rfl, ?_⟩)
    exact bind_eq_ok.2 ⟨u, hu, rfl⟩
  · refine hfails.trans (bind_eq_error.2 (Or.inr ⟨t, rfl, ?_⟩))
    exact bind_eq_error.2 (Or.inl hunknown)

end PipelineSql
