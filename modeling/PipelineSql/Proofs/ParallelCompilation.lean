import PipelineSql.Proofs.ColumnReads
import PipelineSql.Proofs.Substitution
import PipelineSql.Query.Derivation

/-!
# Compilations side by side

Two compilations take the same steps when every look-up of the first has its counterpart in the
second: the columns, up to expressions in the place of columns, the builders, and the windows. That
they then give the same, up to these expressions, is said once, for all such pairs. The first pair
are two scopes that agree on the columns that an expression reads.
-/

namespace PipelineSql

open Sql (Expr Ordered Select ColumnRef)

section Bound

variable (f : ColumnRef → Expr)

lemma WindowCall.bindColumns_self (call : WindowCall) : call.bindColumns .column = call := by
  obtain ⟨function, kind⟩ := call
  cases kind with
  | aggregate | cumulative => simp [bindColumns, WindowKind.bindColumns]
  | ranking term => cases term <;> simp [bindColumns, WindowKind.bindColumns]

lemma Built.bindColumns_self (b : Built) : b.bindColumns .column = b := by
  cases b with
  | expression e => exact congrArg expression e.bindColumns_self
  | window call => exact congrArg window call.bindColumns_self

/-- Puts expressions in the place of the columns of window clauses. -/
def WindowContext.bindColumns (c : WindowContext) : WindowContext where
  partitionBy := c.partitionBy.map (Expr.bindColumns f)
  orderBy := bindOrder f c.orderBy
  placement := c.placement

lemma WindowContext.bindColumns_self (c : WindowContext) : c.bindColumns .column = c := by
  have hpartition : c.partitionBy.map (Expr.bindColumns .column) = c.partitionBy :=
    (List.map_congr_left fun e _ => e.bindColumns_self).trans (List.map_id _)
  simp [bindColumns, bindOrder, hpartition]

/-- Puts expressions in the place of the columns of a window; the label stays. -/
def LabelledWindow.bindColumns (w : LabelledWindow) : LabelledWindow where
  label := w.label
  expression := w.expression.bindColumns f

/-- A window is completed from other columns as it is completed from the given ones. -/
lemma WindowContext.window_bindColumns (c : WindowContext) (call : WindowCall) :
    Expr.window (call.bindColumns f).function
        ((c.bindColumns f).overClause (call.bindColumns f).kind) =
      (Expr.window call.function (c.overClause call.kind)).bindColumns f := by
  obtain ⟨function, kind⟩ := call
  rw [Expr.bindColumns_window]
  cases kind with
  | aggregate | cumulative => rfl
  | ranking term => cases term <;> rfl

/-- The operations of a table build from other columns what they build from the given ones. -/
def FunctionTable.Rebuilds (functions : FunctionTable) (mode : Mode) (f : ColumnRef → Expr) :
    Prop :=
  ∀ operation builder a b, functions.lookup operation mode = .ok builder → builder a = .ok b →
    builder (a.bindColumns f) = .ok (b.bindColumns f)

lemma FunctionTable.rebuilds_self (functions : FunctionTable) (mode : Mode) :
    functions.Rebuilds mode .column := by
  intro operation builder a b _ hbuild
  rw [a.bindColumns_self, b.bindColumns_self, hbuild]

variable {f} in
lemma FunctionTable.Standard.rebuilds {functions : FunctionTable} (h : functions.Standard)
    (mode : Mode) : functions.Rebuilds mode f := by
  intro operation builder a b hlookup hbuild
  obtain ⟨t, rfl⟩ := h operation mode builder (FunctionTable.lookup_eq_ok.1 hlookup)
  exact Template.build_bound hbuild

end Bound

namespace CompileEnv

/-- A second compilation does with `g e` what the first one does with `e`, for the expressions that
are `good`. Expressions `f` stand in the place of columns, and `R` relates the windows found. -/
structure Follows (env env' : CompileEnv) (mode mode' : Mode) (f : ColumnRef → Expr)
    (g : ColumnExpr → ColumnExpr) (good : ColumnExpr → Prop)
    (R : List LabelledWindow → List LabelledWindow → Prop) : Prop where
  literal : ∀ v, g (.literal v) = .literal v
  call : ∀ operation args keywords, g (.call operation args keywords) =
    .call operation (args.map g) (keywords.map fun k => (k.1, g k.2))
  parts : ∀ operation args keywords, good (.call operation args keywords) →
    (∀ a ∈ args, good a) ∧ ∀ k ∈ keywords, good k.2
  name : ∀ e n x, good e → e.simpleName? = some n → n ∈ e.reads → env.scope.lookup n = .ok x →
    ∃ m, (g e).simpleName? = some m ∧ m ∈ (g e).reads ∧
      env'.scope.lookup m = .ok (x.bindColumns f)
  lookup : ∀ operation args keywords builder, good (.call operation args keywords) →
    env.functions.lookup operation mode = .ok builder →
    env'.functions.lookup operation mode' = .ok builder
  build : env.functions.Rebuilds mode f
  length : ∀ found other, R found other → other.length = found.length
  place : ∀ found other call, R found other → ∃ other',
    env'.windows.place env'.scope other (call.bindColumns f) =
      ((env.windows.place env.scope found call).1.bindColumns f, other') ∧
    R (env.windows.place env.scope found call).2 other'

/-- What the second compilation gives. -/
def Followed (env' : CompileEnv) (mode' : Mode) (f : ColumnRef → Expr)
    (g : ColumnExpr → ColumnExpr) (good : ColumnExpr → Prop)
    (R : List LabelledWindow → List LabelledWindow → Prop) (found : List LabelledWindow)
    (e : ColumnExpr) (r : Expr) (found' : List LabelledWindow) : Prop :=
  good e → ∀ other, R found other → ∃ other', R found' other' ∧
    env'.compileFrom mode' other (g e) = .ok (r.bindColumns f, other')

namespace Follows

variable {env env' : CompileEnv} {mode mode' : Mode} {f : ColumnRef → Expr}
  {g : ColumnExpr → ColumnExpr} {good : ColumnExpr → Prop}
  {R : List LabelledWindow → List LabelledWindow → Prop}

lemma finishCall (h : Follows env env' mode mode' f g good R) {operation : Operation}
    {builder : Builder} {a : Arguments} {r : Expr}
    {found last found' other last' : List LabelledWindow}
    (hb : env.functions.lookup operation mode = .ok builder) (hother : R found other)
    (hlast : R last last')
    (hfin : env.finishCall operation found.length last (builder a) = .ok (r, found')) :
    ∃ other', R found' other' ∧
      env'.finishCall operation other.length last' (builder (a.bindColumns f)) =
        .ok (r.bindColumns f, other') := by
  cases hres : builder a with
  | error fault => simp [CompileEnv.finishCall, hres] at hfin
  | ok built =>
    rw [h.build operation builder a built hb hres]
    cases built with
    | expression e =>
      simp only [CompileEnv.finishCall, hres, Except.ok.injEq, Prod.mk.injEq] at hfin
      obtain ⟨rfl, rfl⟩ := hfin
      exact ⟨last', hlast, rfl⟩
    | window call =>
      simp only [CompileEnv.finishCall, hres] at hfin
      split at hfin
      · cases hfin
      · rename_i hnone
        have hsame : other.length = found.length := h.length found other hother
        have hsame' : last'.length = last.length := h.length last last' hlast
        have hnone' : ¬other.length < last'.length := by omega
        obtain ⟨other', hplace, hR⟩ := h.place last last' call hlast
        rw [Except.ok.inj hfin] at hplace hR
        simp only [CompileEnv.finishCall, Built.bindColumns, if_neg hnone']
        exact ⟨other', hR, congrArg Except.ok hplace⟩

lemma compileArgs {found found' : List LabelledWindow} {args : List ColumnExpr} {es : List Expr}
    (h : Threaded (Followed env' mode' f g good R) found args es found')
    (hgood : ∀ a ∈ args, good a) {other : List LabelledWindow} (hother : R found other) :
    ∃ other', R found' other' ∧
      env'.compileArgs mode' other (args.map g) = .ok (es.map (Expr.bindColumns f), other') := by
  induction h generalizing other with
  | nil => exact ⟨other, hother, rfl⟩
  | cons hab _ ih =>
    rw [List.forall_mem_cons] at hgood
    obtain ⟨mid, hmid, hhead⟩ := hab hgood.1 other hother
    obtain ⟨last, hlast, htail⟩ := ih hgood.2 hmid
    refine ⟨last, hlast, ?_⟩
    simp only [List.map_cons, CompileEnv.compileArgs, bind_eq_ok, pure_eq_ok]
    exact ⟨_, hhead, _, htail, rfl⟩

lemma compileKeywords {found found' : List LabelledWindow} {keywords : List (String × ColumnExpr)}
    {ks : List (String × Expr)}
    (h : Threaded (fun s k y t => k.1 = y.1 ∧ Followed env' mode' f g good R s k.2 y.2 t)
      found keywords ks found')
    (hgood : ∀ k ∈ keywords, good k.2) {other : List LabelledWindow} (hother : R found other) :
    ∃ other', R found' other' ∧
      env'.compileKeywords mode' other (keywords.map fun k => (k.1, g k.2)) =
        .ok (ks.map (fun k => (k.1, k.2.bindColumns f)), other') := by
  induction h generalizing other with
  | nil => exact ⟨other, hother, rfl⟩
  | cons hab _ ih =>
    rw [List.forall_mem_cons] at hgood
    obtain ⟨mid, hmid, hhead⟩ := hab.2 hgood.1 other hother
    obtain ⟨last, hlast, htail⟩ := ih hgood.2 hmid
    refine ⟨last, hlast, ?_⟩
    simp only [List.map_cons, CompileEnv.compileKeywords, bind_eq_ok, pure_eq_ok]
    exact ⟨_, hhead, _, htail, by rw [hab.1]⟩

/-- Every step of a compilation is followed. -/
lemma cases (h : Follows env env' mode mode' f g good R) :
    CompileCases env mode (Followed env' mode' f g good R) where
  literal := by
    intro v found _ other hother
    rw [h.literal]
    exact ⟨other, hother, rfl⟩
  name := by
    intro e n x found hn hread hx hgood other hother
    obtain ⟨m, hm, hread', hx'⟩ := h.name e n x hgood hn hread hx
    exact ⟨other, hother, compileFrom_of_simpleName other hm hread' hx'⟩
  call := by
    intro operation args keywords builder es ks found mid last r found' hb hargs hkeywords hfin
      hgood other hother
    obtain ⟨hgoodArgs, hgoodKeywords⟩ := h.parts operation args keywords hgood
    obtain ⟨mid', hmid, hargs'⟩ := compileArgs hargs hgoodArgs hother
    obtain ⟨last', hlast, hkeywords'⟩ := compileKeywords hkeywords hgoodKeywords hmid
    obtain ⟨other', hR, hfin'⟩ := h.finishCall hb hother hlast hfin
    refine ⟨other', hR, ?_⟩
    rw [h.call]
    simp only [CompileEnv.compileFrom, bind_eq_ok]
    exact ⟨builder, h.lookup operation args keywords builder hgood hb, _, hargs', _, hkeywords',
      hfin'⟩

/-- A compilation that is followed to its end. -/
theorem compile (h : Follows env env' mode mode' f g good R) (hnil : R [] []) {e : ColumnExpr}
    (hgood : good e) {r : Expr} {found : List LabelledWindow}
    (hrun : env.compile mode e = .ok (r, found)) : ∃ found', R found found' ∧
      env'.compile mode' (g e) = .ok (r.bindColumns f, found') :=
  h.cases.compileFrom e hrun hgood [] hnil

section Same

variable {env env' : CompileEnv} {mode mode' : Mode} {good : ColumnExpr → Prop}

/-- A compilation that is followed without a change gives the same. -/
lemma compile_of_eq
    (h : Follows env env' mode mode' .column id good fun found other => other = found)
    {e : ColumnExpr} (hgood : good e) {result : Expr × List LabelledWindow}
    (hrun : env.compile mode e = .ok result) : env'.compile mode' e = .ok result := by
  obtain ⟨_, rfl, hrun'⟩ := h.compile rfl hgood hrun
  rwa [Expr.bindColumns_self] at hrun'

lemma compileAll_of_eq
    (h : Follows env env' mode mode' .column id good fun found other => other = found)
    {es : List ColumnExpr} (hgood : ∀ e ∈ es, good e) {result : List Expr × List LabelledWindow}
    (hrun : env.compileAll mode es = .ok result) : env'.compileAll mode' es = .ok result := by
  obtain ⟨_, rfl, hrun'⟩ := compileArgs (h.cases.compileArgs es hrun) hgood rfl
  have hself : result.1.map (Expr.bindColumns .column) = result.1 :=
    (List.map_congr_left fun e _ => e.bindColumns_self).trans (List.map_id _)
  rwa [List.map_id, hself] at hrun'

end Same

end Follows

end CompileEnv

/-- Under new names, columns of one scope stand in another for what they stand for, with expressions
in the place of the columns. -/
def Scope.Rebinds (scope scope' : Scope) (f : ColumnRef → Expr) (label : String → String)
    (names : List String) : Prop :=
  ∀ n ∈ names, ∀ x, scope.lookup n = .ok x → scope'.lookup (label n) = .ok (x.bindColumns f)

/-- A call reads what its arguments read. -/
lemma Scope.Rebinds.parts {scope scope' : Scope} {f : ColumnRef → Expr} {label : String → String}
    {operation : Operation} {args : List ColumnExpr} {keywords : List (String × ColumnExpr)}
    (h : scope.Rebinds scope' f label (ColumnExpr.call operation args keywords).reads) :
    (∀ a ∈ args, scope.Rebinds scope' f label a.reads) ∧
      ∀ k ∈ keywords, scope.Rebinds scope' f label k.2.reads := by
  rw [Scope.Rebinds, ColumnExpr.reads, ColumnExpr.readsOfArgs_eq,
    ColumnExpr.readsOfKeywords_eq] at h
  simp only [List.forall_mem_append, List.mem_flatMap] at h
  exact ⟨fun a ha n hn => h.1 n ⟨a, ha, hn⟩, fun k hk n hn => h.2 n ⟨k, hk, hn⟩⟩

/-- Where windows stay in expressions, they are placed with other columns as with the given ones. -/
lemma WindowContext.place_bindColumns {f : ColumnRef → Expr} {c : WindowContext}
    (hc : c.placement = .inPlace) (scope scope' : Scope) (found other : List LabelledWindow)
    (call : WindowCall) : (c.bindColumns f).place scope' other (call.bindColumns f) =
      ((c.place scope found call).1.bindColumns f, other ++ [⟨freshLabel scope' other,
        (Expr.window call.function (c.overClause call.kind)).bindColumns f⟩]) := by
  have hc' : (c.bindColumns f).placement = .inPlace := hc
  simp only [place, hc, hc', window_bindColumns]

namespace CompileEnv

variable {functions functions' : FunctionTable} {scope scope' : Scope} {windows : WindowContext}
  {mode mode' : Mode} {f : ColumnRef → Expr} {good : ColumnExpr → Prop}
  {R : List LabelledWindow → List LabelledWindow → Prop}

/-- A compilation with windows in place is followed in a scope whose columns stand for the same,
with expressions in the place of the columns. -/
lemma follows_rebinds (hbuild : functions.Rebuilds mode f) (hplace : windows.placement = .inPlace)
    (hlength : ∀ found other, R found other → other.length = found.length)
    (hR : ∀ found other x, R found other → R (found ++ [⟨freshLabel scope found, x⟩])
      (other ++ [⟨freshLabel scope' other, x.bindColumns f⟩])) :
    Follows ⟨functions, scope, windows⟩ ⟨functions, scope', windows.bindColumns f⟩ mode mode f id
      (fun e => scope.Rebinds scope' f id e.reads) R where
  literal := fun _ => rfl
  call := by simp
  parts := fun _ _ _ h => h.parts
  name := fun e n x hreads hn hread hx => ⟨n, hn, hread, hreads n hread x hx⟩
  lookup := fun _ _ _ _ _ hb => hb
  build := hbuild
  length := hlength
  place := fun found other call hother =>
    ⟨_, WindowContext.place_bindColumns hplace scope scope' found other call,
      hR found other _ hother⟩

/-- A table that finds the builders which another one finds for an expression compiles it as the
other one does. -/
lemma follows_lookup
    (hparts : ∀ operation args keywords, good (.call operation args keywords) →
      (∀ a ∈ args, good a) ∧ ∀ k ∈ keywords, good k.2)
    (hlookup : ∀ operation args keywords builder, good (.call operation args keywords) →
      functions.lookup operation mode = .ok builder →
      functions'.lookup operation mode' = .ok builder) :
    Follows ⟨functions, scope, windows⟩ ⟨functions', scope, windows⟩ mode mode' .column id good
      fun found other => other = found where
  literal := fun _ => rfl
  call := by simp
  parts := hparts
  name := fun e n x _ hn hread hx => ⟨n, hn, hread, by rw [x.bindColumns_self]; exact hx⟩
  lookup := hlookup
  build := functions.rebuilds_self mode
  length := fun _ _ h => congrArg _ h
  place := by
    rintro found _ call rfl
    rw [call.bindColumns_self, Expr.bindColumns_self]
    exact ⟨_, rfl, rfl⟩

end CompileEnv

open CompileEnv

/-- A compilation with windows in place has found every column that the expression reads, and
depends on these columns alone: in each scope in which they stand for the same it gives the same
result and the same windows, up to their labels. So a query that computes none of them could
compute anything else under the names of its own columns. -/
theorem compile_reads_exactly {functions : FunctionTable} {scope : Scope} {windows : WindowContext}
    {mode : Mode} {e : ColumnExpr} {r : Expr} {found : List LabelledWindow}
    (hplace : windows.placement = .inPlace)
    (h : compile ⟨functions, scope, windows⟩ mode e = .ok (r, found)) :
    (∀ n ∈ e.reads, n ∈ scope.names) ∧
    (∀ scope' : Scope, (∀ n ∈ e.reads, ∀ x, scope.lookup n = .ok x → scope'.lookup n = .ok x) →
      ∃ found', compile ⟨functions, scope', windows⟩ mode e = .ok (r, found') ∧
        found'.map LabelledWindow.expression = found.map LabelledWindow.expression) ∧
    ∀ q : Select, scope = .ofSelectList q → QueryState.readsDerived q e.reads = false →
      ∀ scope' : Scope, (∀ n, n ∉ q.derivedColumns → ∀ x, scope.lookup n = .ok x →
        scope'.lookup n = .ok x) →
      ∃ found', compile ⟨functions, scope', windows⟩ mode e = .ok (r, found') := by
  have hread : ∀ n ∈ e.reads, ∃ x, scope.lookup n = .ok x := resolvedCases.compileFrom e h
  have hsame : ∀ scope' : Scope,
      (∀ n ∈ e.reads, ∀ x, scope.lookup n = .ok x → scope'.lookup n = .ok x) →
      ∃ found', compile ⟨functions, scope', windows⟩ mode e = .ok (r, found') ∧
        found'.map LabelledWindow.expression = found.map LabelledWindow.expression := by
    intro scope' hscope
    have hfollows : Follows ⟨functions, scope, windows⟩
        ⟨functions, scope', windows.bindColumns .column⟩ mode mode .column id
        (fun e => scope.Rebinds scope' .column id e.reads) fun found other =>
          other.map LabelledWindow.expression = found.map LabelledWindow.expression := by
      refine follows_rebinds (functions.rebuilds_self mode) hplace ?_ ?_
      · intro found other hother
        simpa using congrArg List.length hother
      · intro found other x hother
        simp [hother]
    have hrebinds : scope.Rebinds scope' .column id e.reads := by
      intro n hn x hx
      rw [x.bindColumns_self]
      exact hscope n hn x hx
    obtain ⟨found', hfound, hrun⟩ := hfollows.compile rfl hrebinds h
    rw [windows.bindColumns_self, r.bindColumns_self] at hrun
    exact ⟨found', hrun, hfound⟩
  refine ⟨fun n hn => ?_, hsame, ?_⟩
  · obtain ⟨x, hx⟩ := hread n hn
    exact Scope.mem_names_of_lookup hx
  · rintro q rfl hderived scope' hscope
    have hpassed : ∀ n ∈ e.reads, n ∉ q.derivedColumns := by
      simpa [QueryState.readsDerived] using hderived
    obtain ⟨found', hrun, _⟩ := hsame scope' fun n hn => hscope n (hpassed n hn)
    exact ⟨found', hrun⟩

/-- A table with a column `x` and other columns. -/
def numberScope (others : List String) : Scope where
  columns := .ofList (("x" :: others).map fun n => (n, .labelled ⟨"t", 0⟩ n))

/-- The running total of positive numbers, and other numbers as they are. The number is read as a
subscript, as an attribute and under a keyword. -/
def runningTotal : ColumnExpr :=
  .call .caseWhen
    [.call .greaterThan [.index .reference (.literal (.str "x")), .literal (.int 0)] [],
      .call .runningSum [.column "x"] []]
    [("default", .column "x")]

/-- Where another column has the name of a label, the running total is the same under another
label. -/
theorem runningTotal_reads_number : ∃ r found found',
    compile ⟨.builtIn .postgres, numberScope [], {}⟩ .window runningTotal = .ok (r, found) ∧
    found.map LabelledWindow.label = ["win1"] ∧
    (∀ n ∈ runningTotal.reads, n ∈ (numberScope []).names) ∧
    compile ⟨.builtIn .postgres, numberScope ["win1"], {}⟩ .window runningTotal =
      .ok (r, found') ∧
    found'.map LabelledWindow.label = ["win2"] ∧
    found'.map LabelledWindow.expression = found.map LabelledWindow.expression := by
  have hfirst : ∃ r found, compile ⟨.builtIn .postgres, numberScope [], {}⟩ .window runningTotal =
      .ok (r, found) ∧ found.map LabelledWindow.label = ["win1"] := ⟨_, _, rfl, rfl⟩
  have hsecond : (compile ⟨.builtIn .postgres, numberScope ["win1"], {}⟩ .window runningTotal).map
      (fun p => p.2.map LabelledWindow.label) = .ok ["win2"] := rfl
  obtain ⟨r, found, hrun, hlabels⟩ := hfirst
  obtain ⟨hread, hsame, _⟩ := compile_reads_exactly rfl hrun
  have hagree : ∀ n ∈ runningTotal.reads, ∀ x, (numberScope []).lookup n = .ok x →
      (numberScope ["win1"]).lookup n = .ok x := by
    intro n hn x hx
    obtain rfl : n = "x" := by
      simpa [runningTotal, ColumnExpr.column, ColumnExpr.reads, ColumnExpr.readsOfArgs,
        ColumnExpr.readsOfKeywords] using hn
    exact hx
  obtain ⟨found', hrun', hexpressions⟩ := hsame (numberScope ["win1"]) hagree
  rw [hrun'] at hsecond
  exact ⟨r, found, found', hrun, hlabels, hread, hrun', Except.ok.inj hsecond, hexpressions⟩

end PipelineSql
