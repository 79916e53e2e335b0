import PipelineSql.Proofs.Building
import PipelineSql.Proofs.Expressions

/-!
# Window functions in expressions

Where a window function may stand inside an expression, and what compiling an expression with the
tables of the dialects can make of columns that hold window functions or none.
-/

namespace PipelineSql

open Sql (Expr Ordered Over)

namespace Sql

/-- The functions that the dialects use as aggregates. -/
def aggregateNames : List String := ["avg", "sum", "min", "max", "var_samp", "stddev_samp"]

namespace Expr

/-- Whether a node is a window function with another one in its parts, or with a partition that is
no column, or an aggregate with a window function in its argument. -/
def misplacesWindow : Expr → Bool
  | .window f clause => f.containsWindow || clause.partitionBy.any containsWindow ||
      clause.partitionBy.any (fun x => !x.isColumn) ||
      clause.orderBy.any fun t => t.target.containsWindow
  | .call f args => decide (f ∈ aggregateNames) && args.any containsWindow
  | .count e => e.containsWindow
  | .countDistinct e => e.containsWindow
  | _ => false

/-- No window function occurs in the expression. -/
def WindowFree (e : Expr) : Prop := e.containsWindow = false

/-- Window functions may occur in the expression, but no node misplaces one. -/
def WindowsPlaced (e : Expr) : Prop := e.anyNode misplacesWindow = false

/-- Whether a node combines values of the same row, other than by a function. -/
def isRowNode : Expr → Bool
  | .call _ _ | .window _ _ | .column _ | .countAll | .count _ | .countDistinct _ => false
  | _ => true

attribute [local simp] anyNode isWindow misplacesWindow isRowNode

lemma windowFree_of_isColumn {e : Expr} (h : e.isColumn = true) : e.WindowFree := by
  cases e <;> simp_all [isColumn, WindowFree, containsWindow]

/-- A test that no node of row-wise SQL passes is failed by what is put together from parts that
fail it. -/
lemma anyNode_rowClosed {p : Expr → Bool} {calls : String → Prop}
    (hp : ∀ e, e.isRowNode = true → p e = false)
    (hcall : ∀ f args, calls f → (∀ x ∈ args, x.anyNode p = false) → p (.call f args) = false) :
    RowClosed calls fun e => e.anyNode p = false where
  value := fun _ => hp _ rfl
  and := by
    intro l r hl hr
    simp only [anyNode, hp (.and l r) rfl, hl, hr, Bool.or_self]
  or := by
    intro l r hl hr
    simp only [anyNode, hp (.or l r) rfl, hl, hr, Bool.or_self]
  not := by
    intro e he
    simp only [anyNode, hp (.not e) rfl, he, Bool.or_self]
  binary := by
    intro l symbol r hl hr
    simp only [anyNode, hp (.binary l symbol r) rfl, hl, hr, Bool.or_self]
  isIn := fun _ _ he hes => (anyNode_isIn_eq_false p).2 ⟨hp _ rfl, he, hes⟩
  isNull := by
    intro e he
    simp only [anyNode, hp (.isNull e) rfl, he, Bool.or_self]
  isNotNull := by
    intro e he
    simp only [anyNode, hp (.isNotNull e) rfl, he, Bool.or_self]
  negate := by
    intro e he
    simp only [anyNode, hp (.negate e) rfl, he, Bool.or_self]
  call := fun f args hf hargs => (anyNode_call_eq_false p).2 ⟨hcall f args hf hargs, hargs⟩
  case := fun _ _ hw ho => (anyNode_case_eq_false p).2 ⟨hp _ rfl, hw, ho⟩
  cast := by
    intro e type he
    simp only [anyNode, hp (.cast e type) rfl, he, Bool.or_self]

lemma windowFree_rowClosed : RowClosed (fun _ => True) WindowFree := by
  refine anyNode_rowClosed ?_ fun _ _ _ _ => rfl
  intro e he
  cases e <;> simp_all

lemma windowsPlaced_rowClosed : RowClosed (fun f => f ∉ aggregateNames) WindowsPlaced := by
  refine anyNode_rowClosed ?_ ?_
  · intro e he
    cases e <;> simp_all
  · intro f args hf _
    simp [hf]

/-- A node that misplaces a window contains one, so there is none in an expression without
windows. -/
lemma WindowFree.windowsPlaced {e : Expr} (h : e.WindowFree) : e.WindowsPlaced := by
  unfold WindowFree containsWindow at h
  unfold WindowsPlaced
  induction e using induct with
  | and l r hl hr | or l r hl hr | binary l _ r hl hr => simp_all
  | not e he | isNull e he | isNotNull e he | negate e he | cast e _ he => simp_all
  | count e he | countDistinct e he => simp_all [containsWindow]
  | isIn e es he hes => simp_all
  | call f args hargs => simp_all [containsWindow]
  | case whens otherwise hwhens hotherwise =>
    obtain ⟨_, hw, ho⟩ := (anyNode_case_eq_false _).1 h
    refine (anyNode_case_eq_false _).2 ⟨rfl, ?_, fun x hx => hotherwise x hx (ho x hx)⟩
    intro w hmem
    exact ⟨(hwhens w hmem).1 (hw w hmem).1, (hwhens w hmem).2 (hw w hmem).2⟩
  | window f clause hf hpartition horder => simp at h
  | column r | value v | countAll => rfl

lemma windowsPlaced_of_isColumn {e : Expr} (h : e.isColumn = true) : e.WindowsPlaced :=
  (windowFree_of_isColumn h).windowsPlaced

lemma WindowFree.replaceAlias {e : Expr} (h : e.WindowFree) (old new : TableAlias) :
    (e.replaceAlias old new).WindowFree := by
  unfold WindowFree containsWindow at *
  unfold Expr.replaceAlias
  induction e using induct with
  | and l r hl hr | or l r hl hr | binary l _ r hl hr =>
    simp_all [mapNodes, replaceAliasNode]
  | not e he | isNull e he | isNotNull e he | negate e he | cast e _ he | count e he
  | countDistinct e he => simp_all [mapNodes, replaceAliasNode]
  | isIn e es he hes => simp_all [mapNodes, replaceAliasNode]
  | call f args hargs => simp_all [mapNodes, replaceAliasNode]
  | case whens otherwise hwhens hotherwise =>
    obtain ⟨_, hw, ho⟩ := (anyNode_case_eq_false _).1 h
    simp only [mapNodes, replaceAliasNode, mapWhens_eq, mapOption_eq]
    refine (anyNode_case_eq_false _).2 ⟨rfl, ?_, ?_⟩
    · intro w hmem
      obtain ⟨v, hv, rfl⟩ := List.mem_map.1 hmem
      exact ⟨(hwhens v hv).1 (hw v hv).1, (hwhens v hv).2 (hw v hv).2⟩
    · intro x hmem
      obtain ⟨y, hy, rfl⟩ := Option.map_eq_some_iff.1 hmem
      exact hotherwise y hy (ho y hy)
  | window f clause hf hpartition horder => simp at h
  | column r =>
    unfold mapNodes replaceAliasNode
    split
    · split <;> rfl
    · rfl
  | value v | countAll => rfl

/-- A window function over parts without windows, partitioned by columns. -/
lemma windowsPlaced_window {f : Expr} {clause : Over Expr} (hf : f.WindowFree)
    (hpartition : ∀ x ∈ clause.partitionBy, x.isColumn = true)
    (horder : ∀ t ∈ clause.orderBy, t.target.WindowFree) : (window f clause).WindowsPlaced := by
  have hfree : ∀ x ∈ clause.partitionBy, x.WindowFree := fun x hx =>
    windowFree_of_isColumn (hpartition x hx)
  refine (anyNode_window_eq_false _).2 ⟨?_, hf.windowsPlaced, fun x hx => (hfree x hx).windowsPlaced,
    fun t ht => (horder t ht).windowsPlaced⟩
  have h₁ : clause.partitionBy.any containsWindow = false := by
    simpa [List.any_eq_false, WindowFree] using hfree
  have h₂ : clause.partitionBy.any (fun x => !x.isColumn) = false := by
    simpa [List.any_eq_false] using hpartition
  have h₃ : (clause.orderBy.any fun t => t.target.containsWindow) = false := by
    simpa [List.any_eq_false, WindowFree] using horder
  have h₀ : f.containsWindow = false := hf
  simp only [misplacesWindow, h₀, h₁, h₂, h₃, Bool.or_self]

end Expr

end Sql

open Sql (aggregateNames)

/-- The aggregate functions are those that aggregating templates call. -/
lemma mem_aggregateNames {name : String} : name ∈ aggregateNames ↔
    ∃ dialect operation, aggregateTemplate dialect operation = some (.function name) := by
  constructor
  · intro h
    simp only [aggregateNames, List.mem_cons, List.not_mem_nil, or_false] at h
    rcases h with rfl | rfl | rfl | rfl | rfl | rfl
    · exact ⟨.postgres, .mean, rfl⟩
    · exact ⟨.postgres, .sum, rfl⟩
    · exact ⟨.postgres, .min, rfl⟩
    · exact ⟨.postgres, .max, rfl⟩
    · exact ⟨.postgres, .variance, rfl⟩
    · exact ⟨.postgres, .deviation, rfl⟩
  · rintro ⟨dialect, operation, h⟩
    unfold aggregateTemplate at h
    split at h <;> simp_all [aggregateNames]

/-- A template that works row by row calls no aggregate. -/
def Template.isRowWise : Template → Bool
  | .countRows | .countDistinct | .overPartition _ | .countPartition | .ranking _
  | .running _ => false
  | t => t.functions.all fun f => f ∉ aggregateNames

lemma scalarTemplate_isRowWise {dialect : Dialect} {operation : Operation} {t : Template}
    (h : scalarTemplate dialect operation = some t) : t.isRowWise = true := by
  have hcommon : ∀ operation t, commonScalar operation = some t → t.isRowWise = true := by
    intro operation t h
    unfold commonScalar at h
    split at h <;> cases h <;> rfl
  unfold scalarTemplate at h
  split at h
  case h_9 => exact hcommon _ _ h
  all_goals
    cases h
    rfl

lemma scalarTemplate_isWindow {dialect : Dialect} {operation : Operation} {t : Template}
    (h : scalarTemplate dialect operation = some t) : t.isWindow = false := by
  have hrow := scalarTemplate_isRowWise h
  cases t <;> simp_all [Template.isRowWise, Template.isWindow]

lemma aggregateTemplate_isWindow {dialect : Dialect} {operation : Operation} {t : Template}
    (h : aggregateTemplate dialect operation = some t) : t.isWindow = false := by
  unfold aggregateTemplate at h
  split at h <;> cases h <;> rfl

lemma windowTemplate_isWindow {dialect : Dialect} {operation : Operation} {t : Template}
    (h : windowTemplate dialect operation = some t) : t.isWindow = true := by
  unfold windowTemplate at h
  split at h <;> cases h <;> rfl

section BuiltIn

variable {dialect : Dialect} {operation : Operation} {mode : Mode} {builder : Builder}
  {a : Arguments}

lemma builtIn_windowFree (hb : (FunctionTable.builtIn dialect).lookup operation mode = .ok builder)
    {e : Expr} (h : builder a = .ok (.expression e)) (ha : ∀ x ∈ a.all, x.WindowFree) :
    e.WindowFree := by
  obtain ⟨t, rfl, _⟩ := FunctionTable.find?_builtIn (FunctionTable.lookup_eq_ok.1 hb)
  rcases Template.build_expression Expr.windowFree_rowClosed (fun _ _ => trivial) ha h with
    ⟨_, rfl⟩ | ⟨_, x, hx, rfl⟩ | he
  · rfl
  · exact ha x hx
  · exact he

/-- Outside of aggregation, a finished expression adds no aggregate to its arguments. -/
lemma builtIn_windowsPlaced
    (hb : (FunctionTable.builtIn dialect).lookup operation mode = .ok builder)
    (hmode : mode ≠ .aggregate) {e : Expr} (h : builder a = .ok (.expression e))
    (ha : ∀ x ∈ a.all, x.WindowsPlaced) : e.WindowsPlaced := by
  obtain ⟨t, rfl, ht⟩ := FunctionTable.find?_builtIn (FunctionTable.lookup_eq_ok.1 hb)
  rcases ht with ht | ⟨hagg, _⟩ | ⟨_, ht⟩
  · have hrow := scalarTemplate_isRowWise ht
    have hcalls : ∀ f ∈ t.functions, f ∉ aggregateNames := by
      intro f hf
      cases t <;> simp_all [Template.isRowWise, Template.functions]
    rcases Template.build_expression Expr.windowsPlaced_rowClosed hcalls ha h with
      ⟨rfl, _⟩ | ⟨rfl, _⟩ | he
    · simp [Template.isRowWise] at hrow
    · simp [Template.isRowWise] at hrow
    · exact he
  · exact absurd hagg hmode
  · obtain ⟨call, he⟩ := (Template.isWindow_iff_of_build h).1 (windowTemplate_isWindow ht)
    cases he

/-- Only where window functions are allowed does a builder make one. -/
lemma builtIn_window_mode
    (hb : (FunctionTable.builtIn dialect).lookup operation mode = .ok builder)
    {call : WindowCall} (h : builder a = .ok (.window call)) : mode = .window := by
  obtain ⟨t, rfl, ht⟩ := FunctionTable.find?_builtIn (FunctionTable.lookup_eq_ok.1 hb)
  have hwindow := (Template.isWindow_iff_of_build h).2 ⟨call, rfl⟩
  rcases ht with ht | ⟨_, ht⟩ | ⟨hmode, _⟩
  · simp [scalarTemplate_isWindow ht] at hwindow
  · simp [aggregateTemplate_isWindow ht] at hwindow
  · exact hmode

lemma builtIn_window (hb : (FunctionTable.builtIn dialect).lookup operation mode = .ok builder)
    {call : WindowCall} (h : builder a = .ok (.window call)) (ha : ∀ x ∈ a.all, x.WindowFree) :
    call.function.WindowFree ∧
      ∀ term, call.kind = .ranking (some term) → term.target.WindowFree := by
  obtain ⟨t, rfl, _⟩ := FunctionTable.find?_builtIn (FunctionTable.lookup_eq_ok.1 hb)
  obtain ⟨hfunction, hterm⟩ := Template.build_window h
  refine ⟨?_, fun term hk => ha _ (hterm term hk)⟩
  rcases hfunction with hf | ⟨f, xs, hxs, hf⟩
  · rw [hf]
    rfl
  · rw [hf]
    exact Expr.windowFree_rowClosed.call f xs trivial fun x hx => ha x (hxs x hx)

end BuiltIn

/-- The partitions are columns, and no window function is ordered by. -/
structure WindowContext.Plain (c : WindowContext) : Prop where
  partitionBy : ∀ x ∈ c.partitionBy, x.isColumn = true
  orderBy : ∀ t ∈ c.orderBy, t.target.WindowFree

lemma WindowContext.Plain.window {c : WindowContext} (hc : c.Plain) {call : WindowCall}
    (hf : call.function.WindowFree)
    (hterm : ∀ term, call.kind = .ranking (some term) → term.target.WindowFree) :
    (Expr.window call.function (c.overClause call.kind)).WindowsPlaced := by
  refine Expr.windowsPlaced_window hf ?_ ?_
  · cases hk : call.kind with
    | aggregate | cumulative => exact hc.partitionBy
    | ranking term => cases term <;> exact hc.partitionBy
  · cases hk : call.kind with
    | aggregate => simp [overClause]
    | cumulative => exact hc.orderBy
    | ranking term =>
      cases term with
      | none => exact hc.orderBy
      | some term => simpa [overClause] using hterm term hk

section Rules

variable {dialect : Dialect} (env : CompileEnv) (mode : Mode)
  (hf : env.functions = .builtIn dialect)

include hf

/-- Where windows stay in place, names stand for columns and windows for themselves. -/
lemma inPlaceRules (hplain : env.windows.Plain) :
    CompileRules env .window (fun _ => Expr.WindowsPlaced) Expr.WindowFree fun _ => True where
  grow := fun _ _ _ h => h
  weaken := fun _ _ h => h.windowsPlaced
  literal := Expr.windowFree_rowClosed.value
  plain := fun _ _ _ _ hb h ha => builtIn_windowFree (hf ▸ hb) h ha
  built := fun _ _ _ _ _ hb h ha => builtIn_windowsPlaced (hf ▸ hb) (by simp) h ha
  placed := by
    intro operation builder a call found hb h ha
    obtain ⟨hfunction, hterm⟩ := builtIn_window (hf ▸ hb) h ha
    refine ⟨?_, trivial⟩
    unfold WindowContext.place
    split
    · exact hplain.window hfunction hterm
    · rfl

/-- Where windows are hoisted, or not allowed at all, none is left in an expression. -/
lemma windowFreeRules (hwindows : mode = .window → env.windows.Plain ∧
      ∃ table, env.windows.placement = .hoisted table) :
    CompileRules env mode (fun _ => Expr.WindowFree) Expr.WindowFree
      fun w => w.expression.WindowsPlaced where
  grow := fun _ _ _ h => h
  weaken := fun _ _ h => h
  literal := Expr.windowFree_rowClosed.value
  plain := fun _ _ _ _ hb h ha => builtIn_windowFree (hf ▸ hb) h ha
  built := fun _ _ _ _ _ hb h ha => builtIn_windowFree (hf ▸ hb) h ha
  placed := by
    intro operation builder a call found hb h ha
    obtain ⟨hfunction, hterm⟩ := builtIn_window (hf ▸ hb) h ha
    obtain ⟨hplain, table, htable⟩ := hwindows (builtIn_window_mode (hf ▸ hb) h)
    refine ⟨?_, hplain.window hfunction hterm⟩
    simp only [WindowContext.place, htable]
    rfl

/-- Row by row, an expression may read columns that are window functions. -/
lemma scalarRules :
    CompileRules env .scalar (fun _ => Expr.WindowsPlaced) Expr.WindowsPlaced fun _ => True where
  grow := fun _ _ _ h => h
  weaken := fun _ _ h => h
  literal := Expr.windowsPlaced_rowClosed.value
  plain := fun _ _ _ _ hb h ha => builtIn_windowsPlaced (hf ▸ hb) (by simp) h ha
  built := fun _ _ _ _ _ hb h ha => builtIn_windowsPlaced (hf ▸ hb) (by simp) h ha
  placed := by
    intro operation builder a call found hb h ha
    have hmode : Mode.scalar = .window := builtIn_window_mode (hf ▸ hb) h
    cases hmode

end Rules

end PipelineSql
