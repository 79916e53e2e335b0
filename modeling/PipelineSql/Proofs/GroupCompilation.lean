import PipelineSql.Proofs.GroupSemantics
import PipelineSql.Proofs.RowCompilation

/-!
# Compiled summaries have the value of what they are compiled from

An expression that combines aggregates and columns that are grouped by compiles to one without
windows. In every group its value is that of the expression, as long as the columns that it reads
stand for the values under their names, in the group or on its rows.
-/

namespace PipelineSql

open Sql (Expr aggregateNames)

variable {V : Type} {A : Aggregates V} {I : Interpretation V} {dialect : Dialect}
  {keys : Sql.Env V} {envs : List (Sql.Env V)}

namespace Sql.Expr

@[simp] lemma evalGroupList_eq (es : List Expr) :
    evalGroupList A I keys envs es = es.mapM (evalGroup A I keys envs) := by
  induction es with
  | nil => rfl
  | cons e es ih => rw [evalGroupList, ih, List.mapM_cons]

@[simp] lemma evalGroupWhens_eq (whens : List (Expr × Expr)) : evalGroupWhens A I keys envs whens =
    whens.mapM fun w => do return (← w.1.evalGroup A I keys envs, ← w.2.evalGroup A I keys envs) := by
  induction whens with
  | nil => rfl
  | cons w whens ih =>
    rw [evalGroupWhens, ih, List.mapM_cons]
    cases w.1.evalGroup A I keys envs with
    | none => rfl
    | some c => cases w.2.evalGroup A I keys envs <;> rfl

@[simp] lemma evalGroupOption_eq (o : Option Expr) :
    evalGroupOption A I keys envs o = o.mapM (evalGroup A I keys envs) := by
  cases o with
  | none => rfl
  | some e =>
    rw [evalGroupOption, Option.mapM_some]
    cases e.evalGroup A I keys envs <;> rfl

attribute [local simp] evalGroup

/-- In a group, too, a node combines the values of its parts. -/
lemma evaluates_evalGroup (A : Aggregates V) (I : Interpretation V) (keys : Env V)
    (envs : List (Env V)) : Evaluates I (evalGroup A I keys envs) where
  call := by
    intro f args hf
    simp [hf]
  value := by simp
  and := by simp
  or := by simp
  not := by simp
  binary := by simp
  isIn := by simp
  isNull := by simp
  isNotNull := by simp
  negate := by simp
  case := by simp
  cast := by simp

end Sql.Expr

namespace ColumnExpr

variable {key : Row V} {rows : List (Row V)} {groups : List String}

@[simp] lemma denoteGroupArgs_eq (args : List ColumnExpr) :
    denoteGroupArgs A I dialect key rows args =
      args.mapM (operand (denoteGroup A I dialect key rows)) := by
  induction args with
  | nil => rfl
  | cons a as ih =>
    rw [denoteGroupArgs, ih, List.mapM_cons, operand]
    cases a.denoteGroup A I dialect key rows <;> rfl

@[simp] lemma denoteGroupKeywords_eq (keywords : List (String × ColumnExpr)) :
    denoteGroupKeywords A I dialect key rows keywords = keywords.mapM fun k =>
      (k.2.operand (denoteGroup A I dialect key rows)).map fun o => (k.1, o) := by
  induction keywords with
  | nil => rfl
  | cons k ks ih =>
    rw [denoteGroupKeywords, ih, List.mapM_cons, operand]
    cases k.2.denoteGroup A I dialect key rows <;> rfl

@[simp] lemma isSummaryArgs_eq (args : List ColumnExpr) :
    isSummaryArgs dialect groups args = args.all (isSummary dialect groups) := by
  induction args with
  | nil => rfl
  | cons a as ih => rw [isSummaryArgs, ih, List.all_cons]

@[simp] lemma isSummaryKeywords_eq (keywords : List (String × ColumnExpr)) :
    isSummaryKeywords dialect groups keywords =
      keywords.all fun k => k.2.isSummary dialect groups := by
  induction keywords with
  | nil => rfl
  | cons k ks ih => rw [isSummaryKeywords, ih, List.all_cons]

/-- A column of a summary is grouped by, and has the value that the group shares. -/
lemma denoteGroup_of_simpleName (A : Aggregates V) (I : Interpretation V) (key : Row V)
    (rows : List (Row V)) {e : ColumnExpr} {n : String} (h : e.simpleName? = some n)
    (hn : n ∈ e.reads) (hsummary : e.isSummary dialect groups = true) :
    n ∈ groups ∧ e.denoteGroup A I dialect key rows = key.lookup n ∧ e.text? = none := by
  unfold simpleName? at h
  split at h
  · cases h
    simp only [isSummary, decide_eq_true_eq] at hsummary
    exact ⟨hsummary, by simp [denoteGroup], rfl⟩
  · cases h
    simp only [isSummary, decide_eq_true_eq] at hsummary
    exact ⟨hsummary, by simp [denoteGroup], rfl⟩
  · simp [reads] at hn
  · cases h

end ColumnExpr

section Aggregated

variable {operation : Operation} {t : Template} {a : Arguments} {r : Expr}

lemma aggregateTemplate_cases (h : aggregateTemplate dialect operation = some t) :
    (∃ name ∈ aggregateNames, t = .function name) ∨ t = .countRows ∨ t = .countDistinct := by
  unfold aggregateTemplate at h
  split at h <;> cases h <;> simp [aggregateNames]

lemma lookup_builtIn_of_aggregateTemplate {builder : Builder}
    (hs : scalarTemplate dialect operation = none)
    (ht : aggregateTemplate dialect operation = some t)
    (h : (FunctionTable.builtIn dialect).lookup operation .aggregate = .ok builder) :
    builder = t.build := by
  have hfind := FunctionTable.lookup_eq_ok.1 h
  simp only [FunctionTable.find?, FunctionTable.builtIn, hs, ht, Option.map_none, Option.map_some,
    Option.some.injEq] at hfind
  exact hfind.symm

lemma Arguments.atMostOne_cases {α : Type} {fault : ArgumentFault} {f : Option Expr → α} {y : α}
    (h : a.atMostOne fault f = .ok y) : (a = ⟨[], []⟩ ∧ y = f none) ∨
      ∃ x, a = ⟨[x], []⟩ ∧ y = f (some x) := by
  obtain ⟨args, keywords⟩ := a
  rcases keywords with _ | ⟨k, ks⟩
  · rcases args with _ | ⟨x, _ | ⟨x', rest⟩⟩
    · cases h
      exact Or.inl ⟨rfl, rfl⟩
    · cases h
      exact Or.inr ⟨x, rfl, rfl⟩
    · cases h
  · rcases args with _ | ⟨x, _ | ⟨x', rest⟩⟩ <;> cases h

/-- What the template of an aggregate builds is that aggregate, over the rows of a group. -/
lemma Template.build_aggregate (A : Aggregates V) (I : Interpretation V) (keys : Sql.Env V)
    (ht : aggregateTemplate dialect operation = some t)
    (h : t.build a = .ok (.expression r)) : a.keywords = [] ∧ r.text? = none ∧
      ∀ (envs : List (Sql.Env V)) (values : List (List V)),
        List.Forall₂ (fun x vs => envs.mapM (fun env => x.eval I env) = some vs) a.args values →
        ∃ v, t.aggregate A envs.length values = some v ∧ r.evalGroup A I keys envs = some v := by
  rcases aggregateTemplate_cases ht with ⟨name, hname, rfl⟩ | rfl | rfl
  · obtain ⟨x, rfl, he⟩ := Arguments.one_cases h
    cases he
    refine ⟨rfl, rfl, ?_⟩
    intro envs values hvalues
    rcases hvalues with _ | ⟨hx, _ | _⟩
    simp [aggregate, Expr.evalGroup, hname, hx]
  · rw [build] at h
    rcases Arguments.atMostOne_cases h with ⟨rfl, he⟩ | ⟨x, rfl, he⟩
    · cases he
      refine ⟨rfl, rfl, ?_⟩
      intro envs values hvalues
      rcases hvalues with _ | _
      exact ⟨_, rfl, rfl⟩
    · cases he
      refine ⟨rfl, rfl, ?_⟩
      intro envs values hvalues
      rcases hvalues with _ | ⟨hx, _ | _⟩
      exact ⟨_, rfl, rfl⟩
  · obtain ⟨x, rfl, he⟩ := Arguments.one_cases h
    cases he
    refine ⟨rfl, rfl, ?_⟩
    intro envs values hvalues
    rcases hvalues with _ | ⟨hx, _ | _⟩
    simp [aggregate, Expr.evalGroup, hx]

end Aggregated

section Compiled

variable {compileEnv : CompileEnv} {key : Row V} {rows : List (Row V)} {groups : List String}

/-- The columns that are grouped by have the values of a group, and the columns that are read have
the values of its rows. -/
structure ReadsGroup (A : Aggregates V) (I : Interpretation V) (scope : Scope)
    (groups : List String) (keys : Sql.Env V) (envs : List (Sql.Env V)) (key : Row V)
    (rows : List (Row V)) (names : List String) : Prop where
  members : List.Forall₂ (fun env row => ReadsRow I env scope row names) envs rows
  keys : ∀ n ∈ groups, ∀ x, scope.lookup n = .ok x →
    x.isColumn = true ∧ ∃ v, key.lookup n = some v ∧ x.evalGroup A I keys envs = some v

lemma ReadsGroup.mono {scope : Scope} {names names' : List String}
    (h : ReadsGroup A I scope groups keys envs key rows names) (hsub : ∀ n ∈ names', n ∈ names) :
    ReadsGroup A I scope groups keys envs key rows names' :=
  ⟨h.members.imp fun _ _ hreads n hn => hreads n (hsub n hn), h.keys⟩

/-- A compiled argument has the same values on the rows of the source as the argument on the rows
of the relation. -/
lemma ReadsGroup.values {scope : Scope} {a : ColumnExpr} {x : Expr}
    (h : ReadsGroup A I scope groups keys envs key rows a.reads)
    (ha : ∀ env row, ReadsRow I env scope row a.reads →
      ∃ v, a.denote I dialect row = some v ∧ Stands (Expr.eval I env) x ⟨v, a.text?⟩) :
    ∃ vs, rows.mapM (fun row => a.denote I dialect row) = some vs ∧
      envs.mapM (fun env => x.eval I env) = some vs := by
  have hboth : List.Forall₂ (fun env row => ∃ v, x.eval I env = some v ∧
      a.denote I dialect row = some v) envs rows := by
    refine h.members.imp ?_
    intro env row hreads
    obtain ⟨v, hv, hstands⟩ := ha env row hreads
    exact ⟨v, hstands.1, hv⟩
  obtain ⟨vs, henvs, hrows⟩ := exists_forall₂ hboth
  exact ⟨vs, mapM_eq_some.2 hrows, mapM_eq_some.2 henvs⟩

/-- A row-wise expression compiles without windows to an expression of its value on every row. -/
def RowValue (I : Interpretation V) (dialect : Dialect) (scope : Scope)
    (s : List LabelledWindow) (e : ColumnExpr) (r : Expr) (t : List LabelledWindow) : Prop :=
  ∀ env row, e.isRowWise dialect = true → t = s ∧ (ReadsRow I env scope row e.reads →
    ∃ v, e.denote I dialect row = some v ∧ Stands (Expr.eval I env) r ⟨v, e.text?⟩)

/-- A summary compiles without windows to an expression of its value in a group. -/
def GroupValue (A : Aggregates V) (I : Interpretation V) (dialect : Dialect) (scope : Scope)
    (groups : List String) (keys : Sql.Env V) (envs : List (Sql.Env V)) (key : Row V)
    (rows : List (Row V)) (s : List LabelledWindow) (e : ColumnExpr) (r : Expr)
    (t : List LabelledWindow) : Prop :=
  e.isSummary dialect groups = true → t = s ∧
    (ReadsGroup A I scope groups keys envs key rows e.reads →
      ∃ v, e.denoteGroup A I dialect key rows = some v ∧
        Stands (Expr.evalGroup A I keys envs) r ⟨v, e.text?⟩)

lemma rowValueCases (hf : compileEnv.functions = .builtIn dialect) (mode : Mode) :
    CompileCases compileEnv mode (RowValue I dialect compileEnv.scope) := by
  have hcases : ∀ (env : Sql.Env V) (row : Row V), CompileCases compileEnv mode _ := fun env row =>
    compileCases_denote (I := I) hf env row
  refine ⟨fun v s env row => (hcases env row).literal v s, ?_, ?_⟩
  · intro e n x s hsimple hn hx env row
    exact (hcases env row).name e n x s hsimple hn hx
  · intro operation args keywords builder es ks s mid last r t hb hargs hkeys hfin env row
    exact (hcases env row).call operation args keywords builder es ks s mid last r t hb
      (hargs.imp fun _ _ _ _ h => h env row) (hkeys.imp fun _ _ _ _ h => ⟨h.1, h.2 env row⟩) hfin

section Calls

variable {scope : Scope} {operation : Operation} {args : List ColumnExpr}
  {keywords : List (String × ColumnExpr)} {es : List Expr} {ks : List (String × Expr)}
  {s mid last found : List LabelledWindow} {r : Expr} {t : Template}

/-- A row-wise operation on summaries. -/
lemma groupValue_scalarCall (ht : scalarTemplate dialect operation = some t)
    (hargs : Threaded (GroupValue A I dialect scope groups keys envs key rows) s args es mid)
    (hkeys : Threaded (fun s k y t => k.1 = y.1 ∧
      GroupValue A I dialect scope groups keys envs key rows s k.2 y.2 t) mid keywords ks last)
    (hfin : compileEnv.finishCall operation s.length last (t.build ⟨es, ks⟩) = .ok (r, found)) :
    GroupValue A I dialect scope groups keys envs key rows s (.call operation args keywords) r
      found := by
  intro hsummary
  simp only [ColumnExpr.isSummary, ht, Option.isSome_some, if_true, ColumnExpr.isSummaryArgs_eq,
    ColumnExpr.isSummaryKeywords_eq, Bool.and_eq_true, List.all_eq_true] at hsummary
  obtain ⟨rfl, hes⟩ := forall₂_of_threaded hargs fun _ a _ _ ha hR => hR (hsummary.1 a ha)
  have hforKeys : last = mid ∧ List.Forall₂ (fun k y => k.1 = y.1 ∧
      (ReadsGroup A I scope groups keys envs key rows k.2.reads →
        ∃ v, k.2.denoteGroup A I dialect key rows = some v ∧
          Stands (Expr.evalGroup A I keys envs) y.2 ⟨v, k.2.text?⟩)) keywords ks := by
    refine forall₂_of_threaded hkeys ?_
    intro s k y t hk hR
    obtain ⟨hsame, hv⟩ := hR.2 (hsummary.2 k hk)
    exact ⟨hsame, hR.1, hv⟩
  obtain ⟨rfl, hks⟩ := hforKeys
  obtain ⟨rfl, hbuilt⟩ := finishCall_of_not_window (scalarTemplate_isWindow ht) hfin
  refine ⟨rfl, fun hreads => ?_⟩
  rw [ColumnExpr.reads] at hreads
  obtain ⟨ops, hops, hes⟩ := exists_operands <| forall₂_imp_mem hes fun a ha r hr =>
    hr (hreads.mono fun n hn => List.mem_append_left _ (CompileRules.mem_readsOfArgs ha hn))
  obtain ⟨kops, hkops, hks⟩ := exists_keywordOperands <|
    forall₂_imp_mem hks fun k hk y hy => ⟨hy.1, hy.2 (hreads.mono fun n hn =>
      List.mem_append_right _ (CompileRules.mem_readsOfKeywords hk hn))⟩
  obtain ⟨v, hmeaning, heval, htext⟩ := Template.build_meaning
    (Expr.evaluates_evalGroup A I keys envs) (scalarTemplate_isRowWise ht) hes hks hbuilt
  refine ⟨v, ?_, heval, htext⟩
  simp [ColumnExpr.denoteGroup, ht, hops, hkops, hmeaning]

/-- An aggregate of row-wise arguments. -/
lemma groupValue_aggregateCall (hscalar : scalarTemplate dialect operation = none)
    (ht : aggregateTemplate dialect operation = some t)
    (hargs : Threaded (RowValue I dialect scope) s args es mid)
    {R : List LabelledWindow → String × ColumnExpr → String × Expr → List LabelledWindow → Prop}
    (hkeys : Threaded R mid keywords ks last)
    (hfin : compileEnv.finishCall operation s.length last (t.build ⟨es, ks⟩) = .ok (r, found)) :
    GroupValue A I dialect scope groups keys envs key rows s (.call operation args keywords) r
      found := by
  intro hsummary
  simp only [ColumnExpr.isSummary, hscalar, ht, Option.isSome_none, Option.isSome_some,
    Bool.false_eq_true, if_false, Bool.true_and, List.all_eq_true] at hsummary
  obtain ⟨rfl, hbuilt⟩ := finishCall_of_not_window (aggregateTemplate_isWindow ht) hfin
  obtain ⟨rfl, htext, hvalue⟩ := Template.build_aggregate A I keys ht hbuilt
  cases hkeys with
  | nil =>
    have hall : mid = s ∧ List.Forall₂ (fun a x => ∀ env row,
        ReadsRow I env scope row a.reads → ∃ v, a.denote I dialect row = some v ∧
          Stands (Expr.eval I env) x ⟨v, a.text?⟩) args es := by
      refine forall₂_of_threaded hargs ?_
      intro s a x t ha hR
      exact ⟨(hR (fun _ => none) [] (hsummary a ha)).1,
        fun env row => (hR env row (hsummary a ha)).2⟩
    obtain ⟨rfl, hes⟩ := hall
    refine ⟨rfl, fun hreads => ?_⟩
    rw [ColumnExpr.reads] at hreads
    obtain ⟨values, hargs, hes⟩ := exists_forall₂ <| forall₂_imp_mem hes fun a ha x hx =>
      (hreads.mono fun n hn =>
        List.mem_append_left _ (CompileRules.mem_readsOfArgs ha hn)).values hx
    obtain ⟨v, haggregate, heval⟩ := hvalue envs values hes
    refine ⟨v, ?_, heval, htext⟩
    rw [hreads.members.length_eq] at haggregate
    simp [ColumnExpr.denoteGroup, hscalar, ht, mapM_eq_some.2 hargs, haggregate]

end Calls

/-- Compiling a summary finds no window, and gives an expression of its value in every group. What
an aggregate is taken of compiles row by row, so both kinds of expression are followed at once. -/
lemma groupValueCases (hf : compileEnv.functions = .builtIn dialect) (groups : List String)
    (keys : Sql.Env V) (envs : List (Sql.Env V)) (key : Row V) (rows : List (Row V)) :
    CompileCases compileEnv .aggregate fun s e r t =>
      RowValue I dialect compileEnv.scope s e r t ∧
      GroupValue A I dialect compileEnv.scope groups keys envs key rows s e r t where
  literal := by
    intro v s
    refine ⟨(rowValueCases hf .aggregate).literal v s, fun _ => ⟨rfl, fun _ => ?_⟩⟩
    refine ⟨I.literal v, by simp [ColumnExpr.denoteGroup], by simp [Expr.evalGroup], ?_⟩
    cases v <;> rfl
  name := by
    intro e n x s hsimple hn hx
    refine ⟨(rowValueCases hf .aggregate).name e n x s hsimple hn hx, fun hsummary => ?_⟩
    refine ⟨rfl, fun hreads => ?_⟩
    obtain ⟨hgroup, hdenote, htext⟩ :=
      ColumnExpr.denoteGroup_of_simpleName A I key rows hsimple hn hsummary
    obtain ⟨hcolumn, v, hv, heval⟩ := hreads.keys n hgroup x hx
    refine ⟨v, hdenote.trans hv, heval, ?_⟩
    rw [htext]
    cases x <;> simp_all [Expr.isColumn, Expr.text?]
  call := by
    intro operation args keywords builder es ks s mid last r t hb hargs hkeys hfin
    refine ⟨(rowValueCases hf .aggregate).call operation args keywords builder es ks s mid last r t hb
      (hargs.imp fun _ _ _ _ h => h.1) (hkeys.imp fun _ _ _ _ h => ⟨h.1, h.2.1⟩) hfin, ?_⟩
    rw [hf] at hb
    cases hscalar : scalarTemplate dialect operation with
    | some template =>
      obtain rfl := lookup_builtIn_of_scalarTemplate hscalar hb
      exact groupValue_scalarCall hscalar (hargs.imp fun _ _ _ _ h => h.2)
        (hkeys.imp fun _ _ _ _ h => ⟨h.1, h.2.2⟩) hfin
    | none =>
      intro hsummary
      cases haggregate : aggregateTemplate dialect operation with
      | none => simp [ColumnExpr.isSummary, hscalar, haggregate] at hsummary
      | some template =>
        obtain rfl := lookup_builtIn_of_aggregateTemplate hscalar haggregate hb
        exact groupValue_aggregateCall hscalar haggregate (hargs.imp fun _ _ _ _ h => h.1) hkeys
          hfin hsummary

end Compiled

end PipelineSql
