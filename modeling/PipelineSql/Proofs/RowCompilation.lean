import PipelineSql.Proofs.ColumnReads
import PipelineSql.Proofs.RowEvaluation
import PipelineSql.Proofs.Windows

/-!
# Compiled expressions have the value of what they are compiled from

An expression that calls row-wise operations only compiles to one without windows. On every row
its value is that of the expression, as long as the columns that it reads stand for the values
under their names.
-/

namespace PipelineSql

open Sql (Expr aggregateNames)

namespace ColumnExpr

lemma operations_shapeNode (e : ColumnExpr) : e.shapeNode.operations = e.operations := by
  unfold shapeNode
  split
  · rfl
  · split <;> simp [operations]
  · simp [operations]
  · rfl

@[simp] lemma operationsOfArgs_eq (args : List ColumnExpr) :
    operationsOfArgs args = args.flatMap operations := by
  induction args with
  | nil => rfl
  | cons a as ih => rw [operationsOfArgs, ih, List.flatMap_cons]

@[simp] lemma operationsOfKeywords_eq (keywords : List (String × ColumnExpr)) :
    operationsOfKeywords keywords = keywords.flatMap fun k => k.2.operations := by
  induction keywords with
  | nil => rfl
  | cons k ks ih => rw [operationsOfKeywords, ih, List.flatMap_cons]

@[simp] lemma operationsOfBound_eq (bound : Option ColumnExpr) :
    operationsOfBound bound = bound.toList.flatMap operations := by
  cases bound with
  | none => rfl
  | some e => simp [operationsOfBound]

/-- A traversal whose step keeps the operations of a node keeps all operations. -/
lemma operations_mapNodes {f : ColumnExpr → ColumnExpr}
    (hf : ∀ e, (f e).operations = e.operations) (e : ColumnExpr) :
    (e.mapNodes f).operations = e.operations := by
  induction e using induct with
  | reference => exact hf _
  | attr parent name ih => rw [mapNodes, hf, operations, operations, ih]
  | call operation args keywords ihargs ihkeywords =>
    rw [mapNodes, hf, operations, operations]
    simp only [mapArgs_eq, mapKeywords_eq, operationsOfArgs_eq, operationsOfKeywords_eq,
      List.flatMap_map]
    rw [List.flatMap_congr ihargs, List.flatMap_congr ihkeywords]
  | index parent key ihparent ihkey =>
    rw [mapNodes, hf, operations, operations, ihparent, ihkey]
  | slice start stop ihstart ihstop =>
    rw [mapNodes, hf, operations, operations]
    simp only [mapBound_eq, operationsOfBound_eq, Option.toList_map, List.flatMap_map]
    rw [List.flatMap_congr fun e he => ihstart e (Option.mem_toList.1 he),
      List.flatMap_congr fun e he => ihstop e (Option.mem_toList.1 he)]
  | literal v => exact hf _

/-- The form in which an expression is compiled calls the same operations. -/
lemma operations_shape (e : ColumnExpr) : e.shape.operations = e.operations :=
  operations_mapNodes operations_shapeNode e

lemma isRowWise_shape {dialect : Dialect} {e : ColumnExpr} (h : e.isRowWise dialect = true) :
    e.shape.isRowWise dialect = true := by
  rwa [isRowWise, operations_shape]

lemma isRowWise_map_shape {dialect : Dialect} {es : List ColumnExpr}
    (h : ∀ e ∈ es, e.isRowWise dialect = true) : ∀ e ∈ es.map shape, e.isRowWise dialect = true := by
  intro e he
  obtain ⟨e', he', rfl⟩ := List.mem_map.1 he
  exact isRowWise_shape (h e' he')

end ColumnExpr

/-- The text of an expression that is a text by itself. -/
def Sql.Expr.text? : Expr → Option String
  | .value (.str s) => some s
  | _ => none

section Meaning

variable {V : Type} {I : Interpretation V} {ev : Expr → Option V}

/-- A way to give values to expressions that follows an interpretation wherever a node combines the
values of its parts. Columns and aggregates are left open. -/
structure Sql.Expr.Evaluates (I : Interpretation V) (ev : Expr → Option V) : Prop where
  value : ∀ v, ev (.value v) = some (I.literal v)
  and : ∀ l r, ev (.and l r) = do return I.and (← ev l) (← ev r)
  or : ∀ l r, ev (.or l r) = do return I.or (← ev l) (← ev r)
  not : ∀ e, ev (.not e) = do return I.not (← ev e)
  binary : ∀ l symbol r, ev (.binary l symbol r) = do return I.binary symbol (← ev l) (← ev r)
  isIn : ∀ e es, ev (.isIn e es) = do return I.isIn (← ev e) (← es.mapM ev)
  isNull : ∀ e, ev (.isNull e) = do return I.isNull (← ev e)
  isNotNull : ∀ e, ev (.isNotNull e) = do return I.isNotNull (← ev e)
  negate : ∀ e, ev (.negate e) = do return I.negate (← ev e)
  call : ∀ f args, f ∉ aggregateNames → ev (.call f args) = do return I.call f (← args.mapM ev)
  case : ∀ whens otherwise, ev (.case whens otherwise) = do
    return I.case (← whens.mapM fun w => do return (← ev w.1, ← ev w.2)) (← otherwise.mapM ev)
  cast : ∀ e type, ev (.cast e type) = do return I.cast type (← ev e)

lemma Sql.Expr.evaluates_eval (I : Interpretation V) (env : Sql.Env V) :
    Evaluates I (eval I env) := by
  constructor <;> intros <;> simp [eval]

/-- A compiled argument has the value and the text of an operand. -/
def Stands (ev : Expr → Option V) (x : Expr) (o : Operand V) : Prop :=
  ev x = some o.value ∧ x.text? = o.text

lemma eval_list {es : List Expr} {ops : List (Operand V)} (h : List.Forall₂ (Stands ev) es ops) :
    es.mapM ev = some (ops.map Operand.value) := by
  rw [mapM_eq_some, List.forall₂_map_right_iff]
  exact h.imp fun _ _ hx => hx.1

lemma lookup_keywords {ks : List (String × Expr)} {kops : List (String × Operand V)}
    (h : List.Forall₂ (fun k o => k.1 = o.1 ∧ Stands ev k.2 o.2) ks kops) (key : String) :
    (ks.lookup key = none ∧ kops.lookup key = none) ∨
      ∃ x o, ks.lookup key = some x ∧ kops.lookup key = some o ∧ Stands ev x o := by
  induction h with
  | nil => exact Or.inl ⟨rfl, rfl⟩
  | @cons k o ks kops hk _ ih =>
    obtain ⟨name, x⟩ := k
    obtain ⟨name', o⟩ := o
    obtain ⟨rfl, hx⟩ := hk
    simp only [List.lookup_cons]
    cases key == name with
    | true => exact Or.inr ⟨x, o, rfl, rfl, hx⟩
    | false => exact ih

lemma eval_pairUp {es : List Expr} {ops : List (Operand V)}
    (h : List.Forall₂ (Stands ev) es ops) :
    ((pairUp es).mapM fun w => do return (← ev w.1, ← ev w.2)) =
      some (inPairs (ops.map Operand.value)) := by
  induction es using pairUp.induct generalizing ops with
  | case1 c e rest ih =>
    cases h with
    | cons hc h =>
      cases h with
      | cons he h =>
        rw [pairUp, List.mapM_cons, ih h]
        simp [inPairs, hc.1, he.1]
  | case2 l hl =>
    rcases h with _ | ⟨hx, _ | ⟨hy, h⟩⟩
    · rfl
    · rfl
    · exact absurd rfl (hl _ _ _)

section Builders

variable (hev : Expr.Evaluates I ev)

include hev

lemma castTarget_meaning {dialect : Dialect} {x y : Expr} {o p : Operand V} {type : String}
    (hx : Stands ev x o) (hy : Stands ev y p)
    (h : castTarget dialect y = .ok type) :
    ∃ v, Template.castMeaning I dialect o p = some v ∧ ev (.cast x type) = some v := by
  unfold castTarget at h
  split at h
  · rename_i name
    split at h
    · rename_i t ht
      cases h
      have hp : p.text = some name := hy.2.symm
      exact ⟨I.cast (castName dialect t) o.value, by simp [Template.castMeaning, hp, ht],
        by simp [hev.cast, hx.1]⟩
    · cases h
  · cases h

variable {a : Arguments} {ops : List (Operand V)} {kops : List (String × Operand V)} {r : Expr}
  (hargs : List.Forall₂ (Stands ev) a.args ops)
  (hkeys : List.Forall₂ (fun k o => k.1 = o.1 ∧ Stands ev k.2 o.2) a.keywords kops)

include hargs hkeys

lemma buildIsIn_meaning (h : buildIsIn a = .ok r) :
    ∃ v, Template.isIn.meaning I ops kops = some v ∧ ev r = some v ∧ r.text? = none := by
  obtain ⟨args, keywords⟩ := a
  unfold buildIsIn at h
  split at h
  · cases h
  · cases h
  · rename_i x hk hx
    cases h
    simp only at hk hx hargs hkeys
    subst hk hx
    rcases hargs with _ | ⟨_, _ | _⟩
    rcases hkeys with _ | _
    exact ⟨I.literal (.bool false), rfl, hev.value _, rfl⟩
  · rename_i x values hne hk hx
    cases h
    simp only at hk hx hargs hkeys
    subst hk hx
    rcases hkeys with _ | _
    rcases hargs with _ | ⟨hx, _ | ⟨hy, hvalues⟩⟩
    · exact absurd rfl hne
    · have hlist := eval_list (List.Forall₂.cons hy hvalues)
      exact ⟨_, rfl, by simp [hev.isIn, hx.1, hlist], rfl⟩

lemma buildRound_meaning (h : buildRound a = .ok r) :
    ∃ v, Template.round.meaning I ops kops = some v ∧ ev r = some v ∧ r.text? = none := by
  have hround : "round" ∉ aggregateNames := by decide
  unfold buildRound at h
  split at h
  · obtain ⟨x, rfl, rfl⟩ := Arguments.one_cases h
    rcases hargs with _ | ⟨hx, _ | _⟩
    rcases hkeys with _ | _
    exact ⟨_, rfl, by simp [hev.call _ _ hround, hx.1], rfl⟩
  · obtain ⟨x, y, rfl, rfl⟩ := Arguments.two_cases h
    rcases hargs with _ | ⟨hx, _ | ⟨hy, _ | _⟩⟩
    rcases hkeys with _ | _
    exact ⟨_, rfl, by simp [hev.call _ _ hround, hx.1, hy.1], rfl⟩
  · cases h

lemma buildCoalesce_meaning (h : buildCoalesce a = .ok r) :
    ∃ v, Template.coalesce.meaning I ops kops = some v ∧ ev r = some v ∧
      r.text? = none := by
  obtain ⟨args, keywords⟩ := a
  unfold buildCoalesce at h
  split at h
  · rename_i x rest hk hx
    cases h
    simp only at hk hx hargs hkeys
    subst hk hx
    rcases hkeys with _ | _
    rcases hargs with _ | ⟨hx, hrest⟩
    have hcoalesce : "coalesce" ∉ aggregateNames := by decide
    exact ⟨_, rfl, by simp [Expr.coalesce, hev.call _ _ hcoalesce, hx.1, eval_list hrest], rfl⟩
  · cases h

lemma buildCase_meaning (h : buildCase a = .ok r) :
    ∃ v, Template.caseWhen.meaning I ops kops = some v ∧ ev r = some v ∧
      r.text? = none := by
  unfold buildCase at h
  split at h
  · cases h
  · split at h
    · cases h
    · cases h
      have hpairs := eval_pairUp hargs
      rcases lookup_keywords hkeys "default" with ⟨hx, ho⟩ | ⟨x, o, hx, ho, hstands⟩
      · refine ⟨_, rfl, ?_, rfl⟩
        simp only [hev.case, hpairs, hx, ho]
        simp
      · refine ⟨_, rfl, ?_, rfl⟩
        simp only [hev.case, hpairs, hx, ho]
        simp [hstands.1]

lemma buildCast_meaning {dialect : Dialect} (h : buildCast dialect a = .ok r) :
    ∃ v, (Template.cast dialect).meaning I ops kops = some v ∧ ev r = some v ∧
      r.text? = none := by
  obtain ⟨args, keywords⟩ := a
  unfold buildCast at h
  split at h
  · rename_i x target hx hk
    obtain ⟨type, htype, rfl⟩ := map_eq_ok.1 h
    simp only at hx hk hargs hkeys
    subst hx
    rcases hargs with _ | ⟨hx, _ | _⟩
    rcases lookup_keywords hkeys "dtype" with ⟨hnone, _⟩ | ⟨y, o, hy, ho, hstands⟩
    · simp [hk] at hnone
    · obtain rfl : y = target := by simpa [hy] using hk
      obtain ⟨v, hv, he⟩ := castTarget_meaning hev hx hstands htype
      exact ⟨v, Option.bind_eq_some_iff.2 ⟨o, ho, hv⟩, he, rfl⟩
  · rename_i x target hx hk
    obtain ⟨type, htype, rfl⟩ := map_eq_ok.1 h
    simp only at hx hk hargs hkeys
    subst hx
    rcases hargs with _ | ⟨hx, _ | ⟨hy, _ | _⟩⟩
    rcases lookup_keywords hkeys "dtype" with ⟨_, hnone⟩ | ⟨y, o, hy', _, _⟩
    · obtain ⟨v, hv, he⟩ := castTarget_meaning hev hx hy htype
      exact ⟨v, (if_pos (Option.isNone_iff_eq_none.2 hnone)).trans hv, he, rfl⟩
    · simp [hk] at hy'
  · cases h

end Builders

/-- What a row-wise template builds has the value that the template means. -/
lemma Template.build_meaning (hev : Expr.Evaluates I ev) {t : Template} {a : Arguments}
    {ops : List (Operand V)} {kops : List (String × Operand V)} {r : Expr}
    (hrow : t.isRowWise = true)
    (hargs : List.Forall₂ (Stands ev) a.args ops)
    (hkeys : List.Forall₂ (fun k o => k.1 = o.1 ∧ Stands ev k.2 o.2) a.keywords kops)
    (h : t.build a = .ok (.expression r)) :
    ∃ v, t.meaning I ops kops = some v ∧ ev r = some v ∧ r.text? = none := by
  cases t with
  | function name | functionOf name text =>
    obtain ⟨x, rfl, he⟩ := Arguments.one_cases h
    cases he
    rcases hargs with _ | ⟨hx, _ | _⟩
    rcases hkeys with _ | _
    have hname : name ∉ aggregateNames := by simpa [isRowWise, functions] using hrow
    exact ⟨_, rfl, by simp [hev.call _ _ hname, hev.value, Expr.text, hx.1], rfl⟩
  | yearOfText | mondayOfText =>
    obtain ⟨x, rfl, he⟩ := Arguments.one_cases h
    cases he
    rcases hargs with _ | ⟨hx, _ | _⟩
    rcases hkeys with _ | _
    refine ⟨_, rfl, ?_, rfl⟩
    simp [hev.call "strftime" _ (by decide), hev.call "date" _ (by decide), hev.cast, hev.value,
      Expr.text, hx.1]
  | not | negate | isNull | isNotNull =>
    obtain ⟨x, rfl, he⟩ := Arguments.one_cases h
    cases he
    rcases hargs with _ | ⟨hx, _ | _⟩
    rcases hkeys with _ | _
    exact ⟨_, rfl, by simp [hev.not, hev.negate, hev.isNull, hev.isNotNull, hx.1], rfl⟩
  | operator symbol | and | or =>
    obtain ⟨x, y, rfl, he⟩ := Arguments.two_cases h
    cases he
    rcases hargs with _ | ⟨hx, _ | ⟨hy, _ | _⟩⟩
    rcases hkeys with _ | _
    exact ⟨_, rfl, by simp [hev.binary, hev.and, hev.or, hx.1, hy.1], rfl⟩
  | like matching =>
    obtain ⟨x, y, rfl, he⟩ := Arguments.two_cases h
    cases he
    rcases hargs with _ | ⟨hx, _ | ⟨hy, _ | _⟩⟩
    rcases hkeys with _ | _
    cases matching with
    | _ =>
      refine ⟨_, rfl, ?_, rfl⟩
      simp [Matching.pattern, hev.binary, hev.value, Expr.text, hx.1, hy.1]
  | between | ifElse =>
    obtain ⟨x, y, z, rfl, he⟩ := Arguments.three_cases h
    cases he
    rcases hargs with _ | ⟨hx, _ | ⟨hy, _ | ⟨hz, _ | _⟩⟩⟩
    rcases hkeys with _ | _
    exact ⟨_, rfl, by simp [hev.binary, hev.and, hev.case, hx.1, hy.1, hz.1], rfl⟩
  | isIn =>
    obtain ⟨e, he, hr⟩ := map_eq_ok.1 h
    cases hr
    exact buildIsIn_meaning hev hargs hkeys he
  | round =>
    obtain ⟨e, he, hr⟩ := map_eq_ok.1 h
    cases hr
    exact buildRound_meaning hev hargs hkeys he
  | caseWhen =>
    obtain ⟨e, he, hr⟩ := map_eq_ok.1 h
    cases hr
    exact buildCase_meaning hev hargs hkeys he
  | coalesce =>
    obtain ⟨e, he, hr⟩ := map_eq_ok.1 h
    cases hr
    exact buildCoalesce_meaning hev hargs hkeys he
  | cast dialect =>
    obtain ⟨e, he, hr⟩ := map_eq_ok.1 h
    cases hr
    exact buildCast_meaning hev hargs hkeys he
  | countRows | countDistinct | overPartition name | countPartition | ranking name
  | running name => simp [isRowWise] at hrow

/-- An argument with its text, by a way to give values to arguments. -/
def ColumnExpr.operand (d : ColumnExpr → Option V) (a : ColumnExpr) : Option (Operand V) :=
  (d a).map fun v => ⟨v, a.text?⟩

lemma exists_operands {d : ColumnExpr → Option V} {args : List ColumnExpr} {es : List Expr}
    (h : List.Forall₂ (fun a r => ∃ v, d a = some v ∧ Stands ev r ⟨v, a.text?⟩) args es) :
    ∃ ops, args.mapM (ColumnExpr.operand d) = some ops ∧ List.Forall₂ (Stands ev) es ops := by
  have hboth : List.Forall₂ (fun a r => ∃ o, a.operand d = some o ∧ Stands ev r o) args es := by
    refine h.imp ?_
    rintro a r ⟨v, hv, hstands⟩
    exact ⟨⟨v, a.text?⟩, by simp [ColumnExpr.operand, hv], hstands⟩
  obtain ⟨ops, hops, hes⟩ := exists_forall₂ hboth
  exact ⟨ops, mapM_eq_some.2 hops, hes⟩

lemma exists_keywordOperands {d : ColumnExpr → Option V} {keywords : List (String × ColumnExpr)}
    {ks : List (String × Expr)}
    (h : List.Forall₂ (fun k y => k.1 = y.1 ∧ ∃ v, d k.2 = some v ∧
      Stands ev y.2 ⟨v, k.2.text?⟩) keywords ks) :
    ∃ kops, keywords.mapM (fun k => (k.2.operand d).map fun o => (k.1, o)) = some kops ∧
      List.Forall₂ (fun k o => k.1 = o.1 ∧ Stands ev k.2 o.2) ks kops := by
  have hboth : List.Forall₂ (fun k y => ∃ o : String × Operand V,
      (k.2.operand d).map (fun o => (k.1, o)) = some o ∧ y.1 = o.1 ∧ Stands ev y.2 o.2)
      keywords ks := by
    refine h.imp ?_
    rintro k y ⟨hname, v, hv, hstands⟩
    exact ⟨(k.1, ⟨v, k.2.text?⟩), by simp [ColumnExpr.operand, hv], hname.symm, hstands⟩
  obtain ⟨kops, hkops, hks⟩ := exists_forall₂ hboth
  exact ⟨kops, mapM_eq_some.2 hkops, hks⟩

end Meaning

namespace ColumnExpr

variable {V : Type} (I : Interpretation V) (dialect : Dialect) (row : Row V)

@[simp] lemma denoteArgs_eq (args : List ColumnExpr) : denoteArgs I dialect row args =
    args.mapM (operand (denote I dialect row)) := by
  induction args with
  | nil => rfl
  | cons a as ih =>
    rw [denoteArgs, ih, List.mapM_cons, operand]
    cases a.denote I dialect row <;> rfl

@[simp] lemma denoteKeywords_eq (keywords : List (String × ColumnExpr)) :
    denoteKeywords I dialect row keywords =
      keywords.mapM fun k => (k.2.operand (denote I dialect row)).map fun o => (k.1, o) := by
  induction keywords with
  | nil => rfl
  | cons k ks ih =>
    rw [denoteKeywords, ih, List.mapM_cons, operand]
    cases k.2.denote I dialect row <;> rfl

end ColumnExpr

lemma lookup_builtIn_of_scalarTemplate {dialect : Dialect} {operation : Operation} {mode : Mode}
    {builder : Builder} {t : Template} (ht : scalarTemplate dialect operation = some t)
    (h : (FunctionTable.builtIn dialect).lookup operation mode = .ok builder) :
    builder = t.build := by
  have hfind := FunctionTable.lookup_eq_ok.1 h
  simp only [FunctionTable.find?, FunctionTable.builtIn, ht, Option.map_some,
    Option.some.injEq] at hfind
  exact hfind.symm

lemma denote_of_simpleName {V : Type} (I : Interpretation V) (dialect : Dialect) (row : Row V)
    {e : ColumnExpr} {n : String} (h : e.simpleName? = some n) (hn : n ∈ e.reads) :
    e.denote I dialect row = row.lookup n ∧ e.text? = none := by
  unfold ColumnExpr.simpleName? at h
  split at h
  · cases h
    exact ⟨by simp [ColumnExpr.denote], rfl⟩
  · cases h
    exact ⟨by simp [ColumnExpr.denote], rfl⟩
  · simp [ColumnExpr.reads] at hn
  · cases h

section Compiled

variable {V : Type} {I : Interpretation V} {env : Sql.Env V} {dialect : Dialect}
  {compileEnv : CompileEnv} {mode : Mode} {row : Row V}

/-- The columns that an expression reads have the values of a row. -/
def ReadsRow (I : Interpretation V) (env : Sql.Env V) (scope : Scope) (row : Row V)
    (names : List String) : Prop :=
  ∀ n ∈ names, ∀ x, scope.lookup n = .ok x →
    x.isColumn = true ∧ ∃ v, row.lookup n = some v ∧ x.eval I env = some v

/-- A run over arguments that adds no windows relates each argument to its result. -/
lemma forall₂_of_threaded {σ α β : Type} {R : σ → α → β → σ → Prop} {S : α → β → Prop}
    {s t : σ} {as : List α} {bs : List β} (h : Threaded R s as bs t)
    (hR : ∀ s a b t, a ∈ as → R s a b t → t = s ∧ S a b) : t = s ∧ List.Forall₂ S as bs := by
  induction h with
  | nil => exact ⟨rfl, .nil⟩
  | cons hab _ ih =>
    obtain ⟨rfl, hS⟩ := hR _ _ _ _ List.mem_cons_self hab
    obtain ⟨rfl, hrest⟩ := ih fun s a b t ha => hR s a b t (List.mem_cons_of_mem _ ha)
    exact ⟨rfl, .cons hS hrest⟩

lemma isRowWise_call {operation : Operation} {args : List ColumnExpr}
    {keywords : List (String × ColumnExpr)}
    (h : (ColumnExpr.call operation args keywords).isRowWise dialect = true) :
    (∃ t, scalarTemplate dialect operation = some t) ∧
      (∀ a ∈ args, a.isRowWise dialect = true) ∧
      ∀ k ∈ keywords, k.2.isRowWise dialect = true := by
  simp only [ColumnExpr.isRowWise, ColumnExpr.operations,
    ColumnExpr.operationsOfArgs_eq, ColumnExpr.operationsOfKeywords_eq, List.cons_append,
    List.all_cons, List.all_append, List.all_flatMap, Bool.and_eq_true, Option.isSome_iff_exists,
    List.all_eq_true] at h ⊢
  exact ⟨h.1, h.2.1, h.2.2⟩

/-- A template that makes no window function gives its result in place. -/
lemma finishCall_of_not_window {operation : Operation} {t : Template} {a : Arguments} {n : Nat}
    {found found' : List LabelledWindow} {r : Expr} (ht : t.isWindow = false)
    (h : compileEnv.finishCall operation n found (t.build a) = .ok (r, found')) :
    found' = found ∧ t.build a = .ok (.expression r) := by
  cases hbuilt : t.build a with
  | error fault => simp [CompileEnv.finishCall, hbuilt] at h
  | ok built =>
    cases built with
    | window call =>
      have hwindow := (Template.isWindow_iff_of_build hbuilt).2 ⟨call, rfl⟩
      rw [ht] at hwindow
      cases hwindow
    | expression e =>
      simp only [CompileEnv.finishCall, hbuilt, Except.ok.injEq, Prod.mk.injEq] at h
      obtain ⟨rfl, rfl⟩ := h
      exact ⟨rfl, rfl⟩

/-- Compiling a row-wise expression finds no window, and gives an expression of its value. -/
lemma compileCases_denote (hf : compileEnv.functions = .builtIn dialect) (env : Sql.Env V)
    (row : Row V) : CompileCases compileEnv mode fun s e r t => e.isRowWise dialect = true →
      t = s ∧ (ReadsRow I env compileEnv.scope row e.reads →
        ∃ v, e.denote I dialect row = some v ∧ Stands (Expr.eval I env) r ⟨v, e.text?⟩) where
  literal := by
    intro v s _
    refine ⟨rfl, fun _ => ⟨I.literal v, by simp [ColumnExpr.denote], rfl, ?_⟩⟩
    cases v <;> rfl
  name := by
    intro e n x s hsimple hn hx _
    refine ⟨rfl, fun hreads => ?_⟩
    obtain ⟨hcolumn, v, hv, heval⟩ := hreads n hn x hx
    obtain ⟨hdenote, htext⟩ := denote_of_simpleName I dialect row hsimple hn
    refine ⟨v, hdenote.trans hv, heval, ?_⟩
    rw [htext]
    cases x <;> simp_all [Expr.isColumn, Expr.text?]
  call := by
    intro operation args keywords builder es ks s mid last r t hb hargs hkeys hfin hwise
    obtain ⟨⟨template, htemplate⟩, hwiseArgs, hwiseKeys⟩ := isRowWise_call hwise
    have hbuilder := lookup_builtIn_of_scalarTemplate htemplate (hf ▸ hb)
    -- No argument adds a window, so the windows found stay those at the start.
    obtain ⟨rfl, hes⟩ := forall₂_of_threaded hargs fun _ a _ _ ha hR => hR (hwiseArgs a ha)
    have hforKeys : last = mid ∧ List.Forall₂ (fun k y => k.1 = y.1 ∧
        (ReadsRow I env compileEnv.scope row k.2.reads →
          ∃ v, k.2.denote I dialect row = some v ∧ Stands (Expr.eval I env) y.2 ⟨v, k.2.text?⟩))
        keywords ks := by
      refine forall₂_of_threaded hkeys ?_
      intro s k y t hk hR
      obtain ⟨hsame, hv⟩ := hR.2 (hwiseKeys k hk)
      exact ⟨hsame, hR.1, hv⟩
    obtain ⟨rfl, hks⟩ := hforKeys
    subst hbuilder
    obtain ⟨rfl, hbuilt⟩ := finishCall_of_not_window (scalarTemplate_isWindow htemplate) hfin
    refine ⟨rfl, fun hreads => ?_⟩
    rw [ColumnExpr.reads] at hreads
    obtain ⟨ops, hops, hes⟩ := exists_operands <| forall₂_imp_mem hes fun a ha r hr =>
      hr fun n hn => hreads n (List.mem_append_left _ (CompileRules.mem_readsOfArgs ha hn))
    obtain ⟨kops, hkops, hks⟩ := exists_keywordOperands <|
      forall₂_imp_mem hks fun k hk y hy => ⟨hy.1, hy.2 fun n hn =>
        hreads n (List.mem_append_right _ (CompileRules.mem_readsOfKeywords hk hn))⟩
    obtain ⟨v, hmeaning, heval, htext⟩ := Template.build_meaning (Expr.evaluates_eval I env)
      (scalarTemplate_isRowWise htemplate) hes hks hbuilt
    refine ⟨v, ?_, heval, htext⟩
    simp [ColumnExpr.denote, htemplate, hops, hkops, hmeaning]

lemma eval_compileExpr (hf : compileEnv.functions = .builtIn dialect) {e : ColumnExpr} {r : Expr}
    (hwise : e.isRowWise dialect = true)
    (hreads : ReadsRow I env compileEnv.scope row e.reads)
    (h : compileEnv.compileExpr mode e = .ok r) :
    ∃ v, e.denote I dialect row = some v ∧ r.eval I env = some v := by
  obtain ⟨⟨x, found⟩, hrun, rfl⟩ := map_eq_ok.1 h
  obtain ⟨_, hdenote⟩ := (compileCases_denote hf env row).compileFrom e hrun hwise
  obtain ⟨v, hv, hstands⟩ := hdenote hreads
  exact ⟨v, hv, hstands.1⟩

/-- Several row-wise expressions at once: no window is found, and each has its value. -/
lemma eval_compileAll (hf : compileEnv.functions = .builtIn dialect) {es : List ColumnExpr}
    {rs : List Expr} {found : List LabelledWindow} (hwise : ∀ e ∈ es, e.isRowWise dialect = true)
    (h : compileEnv.compileAll mode es = .ok (rs, found)) (env : Sql.Env V) (row : Row V) :
    found = [] ∧ List.Forall₂ (fun e r => ReadsRow I env compileEnv.scope row e.reads →
      ∃ v, e.denote I dialect row = some v ∧ r.eval I env = some v) es rs := by
  have hrun := (compileCases_denote (I := I) hf env row).compileArgs es h
  refine forall₂_of_threaded hrun ?_
  intro s e r t he hR
  obtain ⟨hsame, hdenote⟩ := hR (hwise e he)
  refine ⟨hsame, fun hreads => ?_⟩
  obtain ⟨v, hv, hstands⟩ := hdenote hreads
  exact ⟨v, hv, hstands.1⟩

end Compiled

end PipelineSql
