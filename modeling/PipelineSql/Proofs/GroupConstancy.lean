import PipelineSql.Proofs.ExpressionTrees
import PipelineSql.Proofs.GroupCompilation
import PipelineSql.Proofs.WindowPlacement

/-!
# Values that are constant in a group

A column of a summary has one value in each group when every column reference in it is grouped by or
stands inside exactly one aggregate call, and no aggregate call stands inside another one. A summary
does not ask for this: the columns that it computes are constant exactly when the expressions that
it is given combine grouping columns and aggregates of row-wise arguments.
-/

namespace PipelineSql

open Sql (Expr Select AliasCounter aggregateNames)

namespace Sql.Expr

/-- Whether an expression is the call of an aggregate. -/
def isAggregateCall : Expr → Bool
  | .call f _ => decide (f ∈ aggregateNames)
  | .countAll => true
  | .count _ => true
  | .countDistinct _ => true
  | _ => false

/-- An expression stands in another one, inside of as many aggregate calls. -/
inductive OccursIn (x : Expr) : Nat → Expr → Prop where
  | self : OccursIn x 0 x
  | part {depth : Nat} {y e : Expr} : y ∈ e.parts → OccursIn x depth y →
      OccursIn x (depth + e.isAggregateCall.toNat) e

/-- No aggregate is called in an expression. -/
def RowLevel (e : Expr) : Prop := ∀ x depth, OccursIn x depth e → x.isAggregateCall = false

/-- Every column in an expression is grouped by or stands inside exactly one aggregate call, and no
aggregate call stands inside another one. -/
structure ConstantIn (groupBy : List Expr) (e : Expr) : Prop where
  columns : ∀ ref depth, OccursIn (.column ref) depth e → .column ref ∈ groupBy ∨ depth = 1
  aggregates : ∀ x depth, x.isAggregateCall = true → OccursIn x depth e → depth = 0

variable {groupBy : List Expr} {e x : Expr} {depth : Nat}

/-- A column has one name. -/
lemma exposes_inj {n m : String} (hn : e.exposes n = true) (hm : e.exposes m = true) : n = m := by
  cases e with
  | column ref =>
    simp only [exposes, decide_eq_true_eq] at hn hm
    exact hn.symm.trans hm
  | _ => cases hn

lemma occursIn_iff : OccursIn x depth e ↔ (x = e ∧ depth = 0) ∨
    ∃ y ∈ e.parts, ∃ d, OccursIn x d y ∧ depth = d + e.isAggregateCall.toNat := by
  constructor
  · intro h
    cases h with
    | self => exact Or.inl ⟨rfl, rfl⟩
    | part hy hx => exact Or.inr ⟨_, hy, _, hx, rfl⟩
  · rintro (⟨rfl, rfl⟩ | ⟨y, hy, d, hx, rfl⟩)
    · exact .self
    · exact .part hy hx

lemma rowLevel_iff : e.RowLevel ↔ e.isAggregateCall = false ∧ ∀ x ∈ e.parts, x.RowLevel := by
  constructor
  · intro h
    refine ⟨h e 0 .self, fun y hy x depth hx => ?_⟩
    exact h x _ (.part hy hx)
  · rintro ⟨hself, hparts⟩ x depth hx
    rcases occursIn_iff.1 hx with ⟨rfl, _⟩ | ⟨y, hy, d, hx, _⟩
    · exact hself
    · exact hparts y hy x d hx

/-- Where no aggregate is called, nothing stands inside of one. -/
lemma RowLevel.depth_eq (h : e.RowLevel) (hx : OccursIn x depth e) : depth = 0 := by
  induction hx with
  | self => rfl
  | part hy _ ih =>
    obtain ⟨hself, hparts⟩ := rowLevel_iff.1 h
    rw [ih (hparts _ hy), hself]
    rfl

lemma constantIn_column {ref : ColumnRef} :
    (column ref).ConstantIn groupBy ↔ column ref ∈ groupBy := by
  constructor
  · intro h
    rcases h.columns ref 0 .self with hmem | hdepth
    · exact hmem
    · cases hdepth
  · intro hmem
    constructor
    · intro ref' depth hx
      rcases occursIn_iff.1 hx with ⟨hsame, _⟩ | ⟨y, hy, _⟩
      · exact Or.inl (hsame ▸ hmem)
      · simp [parts] at hy
    · intro x depth hcall hx
      rcases occursIn_iff.1 hx with ⟨_, hdepth⟩ | ⟨y, hy, _⟩
      · exact hdepth
      · simp [parts] at hy

/-- An aggregate is constant in a group when its arguments call no other one. -/
lemma constantIn_aggregate (h : e.isAggregateCall = true) :
    e.ConstantIn groupBy ↔ ∀ x ∈ e.parts, x.RowLevel := by
  constructor
  · intro hconstant y hy x depth hx
    by_contra hcall
    rw [Bool.not_eq_false] at hcall
    have hdepth := hconstant.aggregates x _ hcall (.part hy hx)
    rw [h] at hdepth
    cases hdepth
  · intro hparts
    constructor
    · intro ref depth hx
      rcases occursIn_iff.1 hx with ⟨rfl, _⟩ | ⟨y, hy, d, hinside, rfl⟩
      · cases h
      · rw [(hparts y hy).depth_eq hinside, h]
        exact Or.inr rfl
    · intro x depth hcall hx
      rcases occursIn_iff.1 hx with ⟨_, hdepth⟩ | ⟨y, hy, d, hx, _⟩
      · exact hdepth
      · rw [hparts y hy x d hx] at hcall
        cases hcall

lemma constantIn_node (hcolumn : e.isColumn = false) (hcall : e.isAggregateCall = false) :
    e.ConstantIn groupBy ↔ ∀ x ∈ e.parts, x.ConstantIn groupBy := by
  have hdepth : ∀ {x depth}, OccursIn x depth e ↔ (x = e ∧ depth = 0) ∨
      ∃ y ∈ e.parts, OccursIn x depth y := by
    intro x depth
    rw [occursIn_iff, hcall]
    simp
  constructor
  · intro h y hy
    constructor
    · exact fun ref depth hx => h.columns ref depth (hdepth.2 (Or.inr ⟨y, hy, hx⟩))
    · exact fun x depth hx' hx => h.aggregates x depth hx' (hdepth.2 (Or.inr ⟨y, hy, hx⟩))
  · intro h
    constructor
    · intro ref depth hx
      rcases hdepth.1 hx with ⟨rfl, _⟩ | ⟨y, hy, hx⟩
      · cases hcolumn
      · exact (h y hy).columns ref depth hx
    · intro x depth hx' hx
      rcases hdepth.1 hx with ⟨_, hzero⟩ | ⟨y, hy, hx⟩
      · exact hzero
      · exact (h y hy).aggregates x depth hx' hx

/-- A property that an expression other than a column or an aggregate has when its parts have it. -/
def PassesDown (P : Expr → Prop) : Prop :=
  ∀ e, e.isColumn = false → e.isAggregateCall = false → (P e ↔ ∀ x ∈ e.parts, P x)

lemma passesDown_rowLevel : PassesDown RowLevel := by
  intro e _ hcall
  rw [rowLevel_iff, hcall]
  simp

lemma passesDown_constantIn (groupBy : List Expr) : PassesDown (ConstantIn groupBy) :=
  fun _ => constantIn_node

variable {P : Expr → Prop}

lemma PassesDown.call (hP : PassesDown P) {f : String} {args : List Expr}
    (hf : f ∉ aggregateNames) : P (.call f args) ↔ ∀ x ∈ args, P x :=
  hP _ rfl (by simpa [isAggregateCall] using hf)

lemma PassesDown.case (hP : PassesDown P) {whens : List (Expr × Expr)} {otherwise : Option Expr} :
    P (.case whens otherwise) ↔ (∀ w ∈ whens, P w.1 ∧ P w.2) ∧ ∀ e ∈ otherwise, P e := by
  rw [hP _ rfl rfl]
  simp only [mem_parts_case]
  constructor
  · intro h
    refine ⟨fun w hw => ⟨?_, ?_⟩, fun e he => h e (Or.inr he)⟩
    · exact h w.1 (Or.inl ⟨w, hw, Or.inl rfl⟩)
    · exact h w.2 (Or.inl ⟨w, hw, Or.inr rfl⟩)
  · rintro ⟨hwhens, hotherwise⟩ x (⟨w, hw, rfl | rfl⟩ | hx)
    · exact (hwhens w hw).1
    · exact (hwhens w hw).2
    · exact hotherwise x hx

end Sql.Expr

/-- The arguments of a template that stand in what it builds. -/
def Template.used {α : Type} (t : Template) (args : List α) (keywords : List (String × α)) :
    List α :=
  match t with
  | .countRows => []
  | .isIn => if args.length = 1 then [] else args
  | .cast _ => args.take 1
  | .caseWhen => args ++ (keywords.lookup "default").toList
  | _ => args

section Built

variable {P : Expr → Prop} {t : Template} {a : Arguments} {r : Expr}

lemma forall_pairUp {l : List Expr} (hl : l.length % 2 = 0) :
    (∀ w ∈ pairUp l, P w.1 ∧ P w.2) ↔ ∀ x ∈ l, P x := by
  fun_induction pairUp l with
  | case1 c e rest ih =>
    have hrest : rest.length % 2 = 0 := by
      rw [List.length_cons, List.length_cons] at hl
      omega
    rw [List.forall_mem_cons, ih hrest, List.forall_mem_cons, List.forall_mem_cons, and_assoc]
  | case2 l hl' =>
    match l, hl' with
    | [], _ => simp
    | [x], _ => simp at hl
    | c :: e :: rest, hl' => exact absurd rfl (hl' c e rest)

section Branches

variable (hP : Expr.PassesDown P)
include hP

lemma buildIsIn_passesDown (h : buildIsIn a = .ok r) :
    P r ↔ ∀ x ∈ Template.isIn.used a.args a.keywords, P x := by
  obtain ⟨args, keywords⟩ := a
  unfold buildIsIn at h
  split at h
  · cases h
  · cases h
  · rename_i x _ hargs
    obtain rfl : args = [x] := hargs
    cases h
    rw [hP _ rfl rfl]
    simp [Template.used, Expr.never, Expr.parts]
  · rename_i x values hmany _ hargs
    obtain rfl : args = x :: values := hargs
    cases h
    have hlength : (x :: values).length ≠ 1 := by
      simpa using fun hnone => hmany hnone
    rw [hP _ rfl rfl, Template.used, if_neg hlength]
    rfl

lemma buildRound_passesDown (h : buildRound a = .ok r) : P r ↔ ∀ x ∈ a.args, P x := by
  unfold buildRound at h
  split at h
  · obtain ⟨x, rfl, rfl⟩ := Arguments.one_cases h
    exact hP.call (by decide)
  · obtain ⟨x, y, rfl, rfl⟩ := Arguments.two_cases h
    exact hP.call (by decide)
  · cases h

lemma buildCoalesce_passesDown (h : buildCoalesce a = .ok r) : P r ↔ ∀ x ∈ a.args, P x := by
  obtain ⟨args, keywords⟩ := a
  unfold buildCoalesce at h
  split at h
  · rename_i x rest _ hargs
    obtain rfl : args = x :: rest := hargs
    cases h
    exact hP.call (by decide)
  · cases h

lemma buildCase_passesDown (h : buildCase a = .ok r) :
    P r ↔ ∀ x ∈ Template.caseWhen.used a.args a.keywords, P x := by
  unfold buildCase at h
  split at h
  · cases h
  · split at h
    · cases h
    · rename_i hpairs
      cases h
      have hlength : a.args.length % 2 = 0 := by
        simp only [Bool.or_eq_true, not_or, decide_eq_true_eq, Classical.not_not] at hpairs
        exact hpairs.2
      rw [hP.case, Template.used, List.forall_mem_append, forall_pairUp hlength]
      simp

lemma buildCast_passesDown {dialect : Dialect} (h : buildCast dialect a = .ok r) :
    P r ↔ ∀ x ∈ (Template.cast dialect).used a.args a.keywords, P x := by
  obtain ⟨args, keywords⟩ := a
  unfold buildCast at h
  split at h
  · rename_i x target hargs _
    obtain rfl : args = [x] := hargs
    obtain ⟨type, _, rfl⟩ := map_eq_ok.1 h
    rw [hP _ rfl rfl]
    rfl
  · rename_i x target hargs _
    obtain rfl : args = [x, target] := hargs
    obtain ⟨type, _, rfl⟩ := map_eq_ok.1 h
    rw [hP _ rfl rfl]
    rfl
  · cases h

end Branches

/-- What a row-wise template builds has a property when the arguments in it have it. -/
lemma Template.build_passesDown (hP : Expr.PassesDown P) (hrow : t.isRowWise = true)
    (h : t.build a = .ok (.expression r)) :
    P r ↔ ∀ x ∈ t.used a.args a.keywords, P x := by
  have hvalue : ∀ v, P (.value v) := fun v => (hP _ rfl rfl).2 (by simp [Expr.parts])
  have hbinary : ∀ x symbol y, P (.binary x symbol y) ↔ P x ∧ P y := fun x symbol y =>
    (hP _ rfl rfl).trans (by simp [Expr.parts])
  cases t with
  | function name | functionOf name text =>
    obtain ⟨x, rfl, he⟩ := Arguments.one_cases h
    cases he
    have hname : name ∉ aggregateNames := by simpa [isRowWise, functions] using hrow
    rw [hP.call hname]
    simp [used, Expr.text, hvalue]
  | yearOfText =>
    obtain ⟨x, rfl, he⟩ := Arguments.one_cases h
    cases he
    have hcall : P (.call "strftime" [.text "%Y", x]) ↔ P x :=
      (hP.call (by decide)).trans (by simp [Expr.text, hvalue])
    rw [hP _ rfl rfl]
    simp [used, Expr.parts, hcall]
  | mondayOfText =>
    obtain ⟨x, rfl, he⟩ := Arguments.one_cases h
    cases he
    rw [hP.call (by decide)]
    simp [used, Expr.text, hvalue]
  | not | negate | isNull | isNotNull =>
    obtain ⟨x, rfl, he⟩ := Arguments.one_cases h
    cases he
    rw [hP _ rfl rfl]
    simp [used, Expr.parts]
  | operator symbol | and | or =>
    obtain ⟨x, y, rfl, he⟩ := Arguments.two_cases h
    cases he
    rw [hP _ rfl rfl]
    simp [used, Expr.parts]
  | like matching =>
    obtain ⟨x, y, rfl, he⟩ := Arguments.two_cases h
    cases he
    have hpattern : P (matching.pattern y) ↔ P y := by
      cases matching <;> simp [Matching.pattern, hbinary, Expr.text, hvalue]
    simp [used, hbinary, hpattern]
  | between =>
    obtain ⟨x, y, z, rfl, he⟩ := Arguments.three_cases h
    cases he
    rw [hP _ rfl rfl]
    simp only [used, Expr.parts, List.forall_mem_cons, hbinary]
    tauto
  | ifElse =>
    obtain ⟨x, y, z, rfl, he⟩ := Arguments.three_cases h
    cases he
    rw [hP.case]
    simp [used, and_assoc]
  | isIn =>
    obtain ⟨e, he, hr⟩ := map_eq_ok.1 h
    cases hr
    exact buildIsIn_passesDown hP he
  | round =>
    obtain ⟨e, he, hr⟩ := map_eq_ok.1 h
    cases hr
    exact buildRound_passesDown hP he
  | caseWhen =>
    obtain ⟨e, he, hr⟩ := map_eq_ok.1 h
    cases hr
    exact buildCase_passesDown hP he
  | coalesce =>
    obtain ⟨e, he, hr⟩ := map_eq_ok.1 h
    cases hr
    exact buildCoalesce_passesDown hP he
  | cast dialect =>
    obtain ⟨e, he, hr⟩ := map_eq_ok.1 h
    cases hr
    exact buildCast_passesDown hP he
  | countRows | countDistinct | overPartition name | countPartition | ranking name
  | running name => simp [isRowWise] at hrow

/-- What the template of an aggregate builds is a call whose parts are the arguments in it. -/
lemma Template.build_isAggregateCall {dialect : Dialect} {operation : Operation}
    (ht : aggregateTemplate dialect operation = some t) (h : t.build a = .ok (.expression r)) :
    r.isAggregateCall = true ∧ r.parts = t.used a.args a.keywords := by
  rcases aggregateTemplate_cases ht with ⟨name, hname, rfl⟩ | rfl | rfl
  · obtain ⟨x, rfl, he⟩ := Arguments.one_cases h
    cases he
    exact ⟨by simpa [Expr.isAggregateCall] using hname, rfl⟩
  · rw [build] at h
    rcases Arguments.atMostOne_cases h with ⟨rfl, he⟩ | ⟨x, rfl, he⟩
    · cases he
      exact ⟨rfl, rfl⟩
    · cases he
      exact ⟨rfl, rfl⟩
  · obtain ⟨x, rfl, he⟩ := Arguments.one_cases h
    cases he
    exact ⟨rfl, rfl⟩

end Built

namespace ColumnExpr

/-- Row-wise operations combine literals and columns, as far as their arguments are used. -/
inductive RowLevel (dialect : Dialect) : ColumnExpr → Prop where
  | literal (v : Literal) : RowLevel dialect (.literal v)
  | column {e : ColumnExpr} {n : String} : e.simpleName? = some n → n ∈ e.reads →
      RowLevel dialect e
  | call {operation : Operation} {args : List ColumnExpr} {keywords : List (String × ColumnExpr)}
      {t : Template} : scalarTemplate dialect operation = some t →
      (∀ a ∈ t.used args keywords, RowLevel dialect a) →
      RowLevel dialect (.call operation args keywords)

/-- Row-wise operations combine literals, grouping columns and aggregates of row-wise arguments, as
far as their arguments are used. -/
inductive GroupLevel (dialect : Dialect) (groups : List String) : ColumnExpr → Prop where
  | literal (v : Literal) : GroupLevel dialect groups (.literal v)
  | column {e : ColumnExpr} {n : String} : e.simpleName? = some n → n ∈ e.reads → n ∈ groups →
      GroupLevel dialect groups e
  | call {operation : Operation} {args : List ColumnExpr} {keywords : List (String × ColumnExpr)}
      {t : Template} : scalarTemplate dialect operation = some t →
      (∀ a ∈ t.used args keywords, GroupLevel dialect groups a) →
      GroupLevel dialect groups (.call operation args keywords)
  | aggregate {operation : Operation} {args : List ColumnExpr}
      {keywords : List (String × ColumnExpr)} {t : Template} :
      scalarTemplate dialect operation = none → aggregateTemplate dialect operation = some t →
      (∀ a ∈ t.used args keywords, RowLevel dialect a) →
      GroupLevel dialect groups (.call operation args keywords)

variable {dialect : Dialect} {groups : List String} {operation : Operation}
  {args : List ColumnExpr} {keywords : List (String × ColumnExpr)} {t : Template}

lemma rowLevel_call (ht : scalarTemplate dialect operation = some t) :
    (call operation args keywords).RowLevel dialect ↔
      ∀ a ∈ t.used args keywords, a.RowLevel dialect := by
  constructor
  · intro h
    cases h with
    | column hname _ => cases hname
    | call ht' hused =>
      rw [ht] at ht'
      cases ht'
      exact hused
  · exact .call ht

lemma groupLevel_call (ht : scalarTemplate dialect operation = some t) :
    (call operation args keywords).GroupLevel dialect groups ↔
      ∀ a ∈ t.used args keywords, a.GroupLevel dialect groups := by
  constructor
  · intro h
    cases h with
    | column hname _ _ => cases hname
    | call ht' hused =>
      rw [ht] at ht'
      cases ht'
      exact hused
    | aggregate hnone _ _ =>
      rw [ht] at hnone
      cases hnone
  · exact .call ht

lemma not_rowLevel_aggregate (hs : scalarTemplate dialect operation = none) :
    ¬(call operation args keywords).RowLevel dialect := by
  intro h
  cases h with
  | column hname _ => cases hname
  | call ht _ =>
    rw [hs] at ht
    cases ht

lemma groupLevel_aggregate (hs : scalarTemplate dialect operation = none)
    (ht : aggregateTemplate dialect operation = some t) :
    (call operation args keywords).GroupLevel dialect groups ↔
      ∀ a ∈ t.used args keywords, a.RowLevel dialect := by
  constructor
  · intro h
    cases h with
    | column hname _ _ => cases hname
    | call ht' _ =>
      rw [hs] at ht'
      cases ht'
    | aggregate _ ht' hused =>
      rw [ht] at ht'
      cases ht'
      exact hused
  · exact .aggregate hs ht

/-- A column is constant in a group exactly when it is grouped by. -/
lemma groupLevel_column {e : ColumnExpr} {n : String} (hname : e.simpleName? = some n)
    (hn : n ∈ e.reads) : e.GroupLevel dialect groups ↔ n ∈ groups := by
  constructor
  · intro h
    cases h with
    | literal v => simp [reads] at hn
    | column hname' _ hgroup =>
      rw [hname] at hname'
      cases hname'
      exact hgroup
    | call => cases hname
    | aggregate => cases hname
  · exact .column hname hn

end ColumnExpr

section Related

variable {α β : Type} {R : α → β → Prop} {args : List α} {es : List β}
  {keywords : List (String × α)} {ks : List (String × β)}

lemma forall₂_lookup (h : List.Forall₂ (fun k y => k.1 = y.1 ∧ R k.2 y.2) keywords ks)
    (key : String) :
    List.Forall₂ R (keywords.lookup key).toList (ks.lookup key).toList := by
  induction h with
  | nil => exact .nil
  | @cons k y keywords ks hk _ ih =>
    obtain ⟨name, a⟩ := k
    obtain ⟨name', b⟩ := y
    obtain ⟨rfl, hR⟩ := hk
    simp only [List.lookup_cons]
    cases key == name with
    | true => exact .cons hR .nil
    | false => exact ih

/-- Arguments that are related one by one are used in the same places. -/
lemma Template.forall₂_used (t : Template) (hargs : List.Forall₂ R args es)
    (hkeys : List.Forall₂ (fun k y => k.1 = y.1 ∧ R k.2 y.2) keywords ks) :
    List.Forall₂ R (t.used args keywords) (t.used es ks) := by
  unfold used
  split
  · exact .nil
  · rw [hargs.length_eq]
    split
    · exact .nil
    · exact hargs
  · exact List.forall₂_take 1 hargs
  · exact List.rel_append hargs (forall₂_lookup hkeys "default")
  · exact hargs

lemma forall_mem_iff_of_forall₂ {P : β → Prop} {Q : α → Prop}
    (h : List.Forall₂ (fun a b => P b ↔ Q a) args es) : (∀ b ∈ es, P b) ↔ ∀ a ∈ args, Q a := by
  induction h with
  | nil => simp
  | cons hab _ ih => rw [List.forall_mem_cons, List.forall_mem_cons, hab, ih]

end Related

section Compiled

variable {compileEnv : CompileEnv} {dialect : Dialect} {groups : List String}
  {groupBy : List Expr}

/-- Some columns stand for different columns, and the grouping columns for what is grouped by. -/
def StandForGroups (scope : Scope) (groups : List String) (groupBy : List Expr)
    (names : List String) : Prop :=
  ∀ n ∈ names, ∀ x, scope.lookup n = .ok x → x.isColumn = true ∧ (x ∈ groupBy ↔ n ∈ groups)

lemma StandForGroups.mono {scope : Scope} {names names' : List String}
    (h : StandForGroups scope groups groupBy names) (hsub : ∀ n ∈ names', n ∈ names) :
    StandForGroups scope groups groupBy names' := fun n hn => h n (hsub n hn)

/-- An expression and what it is compiled to are of the same level. -/
def SameLevel (dialect : Dialect) (groups : List String) (groupBy : List Expr) (e : ColumnExpr)
    (r : Expr) : Prop :=
  (r.RowLevel ↔ e.RowLevel dialect) ∧ (r.ConstantIn groupBy ↔ e.GroupLevel dialect groups)

lemma sameLevel_literal (v : Literal) :
    SameLevel dialect groups groupBy (.literal v) (.value v) := by
  have hrow : (Expr.value v).RowLevel := Expr.rowLevel_iff.2 ⟨rfl, by simp [Expr.parts]⟩
  have hconstant : (Expr.value v).ConstantIn groupBy :=
    (Expr.constantIn_node rfl rfl).2 (by simp [Expr.parts])
  exact ⟨iff_of_true hrow (.literal v), iff_of_true hconstant (.literal v)⟩

lemma sameLevel_column {e : ColumnExpr} {n : String} {x : Expr} (hname : e.simpleName? = some n)
    (hn : n ∈ e.reads) (hcolumn : x.isColumn = true) (hgroup : x ∈ groupBy ↔ n ∈ groups) :
    SameLevel dialect groups groupBy e x := by
  cases x with
  | column ref =>
    have hrow : (Expr.column ref).RowLevel := Expr.rowLevel_iff.2 ⟨rfl, by simp [Expr.parts]⟩
    refine ⟨iff_of_true hrow (.column hname hn), ?_⟩
    rw [Expr.constantIn_column, hgroup, ColumnExpr.groupLevel_column hname hn]
  | _ => cases hcolumn

section Calls

variable {operation : Operation} {args : List ColumnExpr} {keywords : List (String × ColumnExpr)}
  {t : Template} {es : List Expr} {ks : List (String × Expr)} {r : Expr}
  (hargs : List.Forall₂ (SameLevel dialect groups groupBy) args es)
  (hkeys : List.Forall₂ (fun k y => k.1 = y.1 ∧ SameLevel dialect groups groupBy k.2 y.2)
    keywords ks)
include hargs hkeys

lemma sameLevel_scalarCall (ht : scalarTemplate dialect operation = some t)
    (h : t.build ⟨es, ks⟩ = .ok (.expression r)) :
    SameLevel dialect groups groupBy (.call operation args keywords) r := by
  have hused := t.forall₂_used hargs hkeys
  have hrow := scalarTemplate_isRowWise ht
  constructor
  · rw [Template.build_passesDown Expr.passesDown_rowLevel hrow h, ColumnExpr.rowLevel_call ht]
    exact forall_mem_iff_of_forall₂ (hused.imp fun _ _ hlevel => hlevel.1)
  · rw [Template.build_passesDown (Expr.passesDown_constantIn groupBy) hrow h,
      ColumnExpr.groupLevel_call ht]
    exact forall_mem_iff_of_forall₂ (hused.imp fun _ _ hlevel => hlevel.2)

lemma sameLevel_aggregateCall (hs : scalarTemplate dialect operation = none)
    (ht : aggregateTemplate dialect operation = some t)
    (h : t.build ⟨es, ks⟩ = .ok (.expression r)) :
    SameLevel dialect groups groupBy (.call operation args keywords) r := by
  obtain ⟨hcall, hparts⟩ := Template.build_isAggregateCall ht h
  have hused := t.forall₂_used hargs hkeys
  constructor
  · refine iff_of_false ?_ (ColumnExpr.not_rowLevel_aggregate hs)
    intro hrow
    rw [(Expr.rowLevel_iff.1 hrow).1] at hcall
    cases hcall
  · rw [Expr.constantIn_aggregate hcall, hparts, ColumnExpr.groupLevel_aggregate hs ht]
    exact forall_mem_iff_of_forall₂ (hused.imp fun _ _ hlevel => hlevel.1)

end Calls

/-- Compiling for a summary keeps the level of an expression. -/
lemma compileCases_sameLevel (groups : List String) (groupBy : List Expr)
    (hf : compileEnv.functions = .builtIn dialect) :
    CompileCases compileEnv .aggregate fun s e r t => t = s ∧
      (StandForGroups compileEnv.scope groups groupBy e.reads →
        SameLevel dialect groups groupBy e r) where
  literal := fun v _ => ⟨rfl, fun _ => sameLevel_literal v⟩
  name := by
    intro e n x s hname hn hx
    refine ⟨rfl, fun hreads => ?_⟩
    obtain ⟨hcolumn, hgroup⟩ := hreads n hn x hx
    exact sameLevel_column hname hn hcolumn hgroup
  call := by
    intro operation args keywords builder es ks s mid last r found hb hargs hkeys hfin
    obtain ⟨rfl, hes⟩ := forall₂_of_threaded hargs fun _ _ _ _ _ h => h
    obtain ⟨rfl, hks⟩ := forall₂_of_threaded
      (S := fun k y => k.1 = y.1 ∧ (StandForGroups compileEnv.scope groups groupBy k.2.reads →
        SameLevel dialect groups groupBy k.2 y.2)) hkeys
      fun _ _ _ _ _ h => ⟨h.2.1, h.1, h.2.2⟩
    have hlevels : StandForGroups compileEnv.scope groups groupBy
        (ColumnExpr.call operation args keywords).reads →
        List.Forall₂ (SameLevel dialect groups groupBy) args es ∧
        List.Forall₂ (fun k y => k.1 = y.1 ∧ SameLevel dialect groups groupBy k.2 y.2)
          keywords ks := by
      intro hreads
      rw [ColumnExpr.reads] at hreads
      constructor
      · exact forall₂_imp_mem hes fun a ha r hr => hr (hreads.mono fun n hn =>
          List.mem_append_left _ (CompileRules.mem_readsOfArgs ha hn))
      · exact forall₂_imp_mem hks fun k hk y hy => ⟨hy.1, hy.2 (hreads.mono fun n hn =>
          List.mem_append_right _ (CompileRules.mem_readsOfKeywords hk hn))⟩
    rw [hf] at hb
    cases hscalar : scalarTemplate dialect operation with
    | some template =>
      obtain rfl := lookup_builtIn_of_scalarTemplate hscalar hb
      obtain ⟨rfl, hbuilt⟩ := finishCall_of_not_window (scalarTemplate_isWindow hscalar) hfin
      refine ⟨rfl, fun hreads => ?_⟩
      exact sameLevel_scalarCall (hlevels hreads).1 (hlevels hreads).2 hscalar hbuilt
    | none =>
      cases haggregate : aggregateTemplate dialect operation with
      | none =>
        have hfind := FunctionTable.lookup_eq_ok.1 hb
        simp [FunctionTable.find?, FunctionTable.builtIn, hscalar, haggregate] at hfind
      | some template =>
        obtain rfl := lookup_builtIn_of_aggregateTemplate hscalar haggregate hb
        obtain ⟨rfl, hbuilt⟩ :=
          finishCall_of_not_window (aggregateTemplate_isWindow haggregate) hfin
        refine ⟨rfl, fun hreads => ?_⟩
        obtain ⟨hargsLevel, hkeysLevel⟩ := hlevels hreads
        exact sameLevel_aggregateCall hargsLevel hkeysLevel hscalar haggregate hbuilt

end Compiled

namespace QueryState

/-- After a wrap that is made when a name is computed by the query, the name stands for a column of
that name. -/
lemma exposes_of_wrapIf {needed : Bool} {q base : Select} {aliases aliases' : AliasCounter}
    (h : wrapIf needed q aliases = (base, aliases')) {names : List String}
    (hneeded : needed = false → readsDerived q names = false) {name : String} (hname : name ∈ names)
    {x : Expr} (hx : (Scope.ofSelectList base).lookup name = .ok x) : x.exposes name = true := by
  rcases wrapIf_cases h with ⟨hfalse, rfl, _⟩ | ⟨rfl, _⟩
  · refine exposes_of_not_derived ?_ hx
    simpa using List.any_eq_false.1 (hneeded hfalse) name hname
  · obtain ⟨c, _, he⟩ := List.mem_map.1 (Scope.mem_of_lookup_ofSelectList hx)
    cases he
    simp [Expr.labelled, Expr.exposes, Sql.ColumnRef.name]

/-- Where its columns stand for columns, an expression of a summary keeps its level. -/
lemma sameLevel_compileIn {s : QueryState} {dialect : Dialect} (hf : s.functions = .builtIn dialect)
    {scope : Scope} {groups : List String} {groupBy : List Expr} {e : ColumnExpr} {r : Expr}
    (hreads : StandForGroups scope groups groupBy e.reads)
    (h : s.compileIn scope .aggregate {} e = .ok r) : SameLevel s.dialect groups groupBy e r := by
  obtain ⟨⟨r, found⟩, hcompiled, rfl⟩ := map_eq_ok.1 h
  obtain ⟨_, hlevel⟩ := (compileCases_sameLevel groups groupBy hf).compileFrom _ hcompiled
  rw [QueryState.dialect, hf]
  exact hlevel hreads

/-- A column stands for what is grouped by exactly when it is a grouping column. -/
lemma mem_groupBy_iff {scope : Scope} {names : List String} {groups : List (String × Expr)}
    (hgroups : scope.project names = .ok groups)
    (hexposes : ∀ g ∈ names, ∀ x, scope.lookup g = .ok x → x.exposes g = true) {n : String}
    {x : Expr} (hx : scope.lookup n = .ok x) (hn : x.exposes n = true) :
    x ∈ groups.map Prod.snd ↔ n ∈ names := by
  obtain ⟨rfl, hlookup⟩ := Scope.project_eq_ok.1 hgroups
  constructor
  · intro hmem
    obtain ⟨c, hc, rfl⟩ := List.mem_map.1 hmem
    have hc' := hexposes c.1 (List.mem_map_of_mem hc) c.2 (hlookup c hc)
    exact Expr.exposes_inj hn hc' ▸ List.mem_map_of_mem hc
  · intro hmem
    obtain ⟨c, hc, rfl⟩ := List.mem_map.1 hmem
    refine List.mem_map.2 ⟨c, hc, ?_⟩
    exact Except.ok.inj ((hlookup c hc).symm.trans hx)

end QueryState

open QueryState

/-- Over the built-in tables, a summary has its grouping columns and then the new ones. A new column
is constant in every group exactly when its expression combines grouping columns and aggregates of
row-wise arguments; whether it does is not asked. -/
theorem summary_constant_iff {tables : Set TableInfo} {s t : QueryState}
    (h : Reachable tables {f | ∃ dialect, f = .builtIn dialect} s)
    {columns : List (String × ColumnExpr)} (hsummary : s.summarize columns = .ok t) :
    ∃ groups new, t.last.columns = groups ++ new ∧ groups.map Prod.fst = s.groups.toList ∧
      t.last.groupBy = groups.map Prod.snd ∧
      List.Forall₂ (fun c x => x.1 = c.1 ∧ x.2.WindowFree ∧
        (x.2.ConstantIn t.last.groupBy ↔ c.2.shape.GroupLevel s.dialect s.groups.toList))
        columns new := by
  obtain ⟨dialect, hf⟩ := h.functions_mem
  obtain ⟨shaped, base, aliases, groups, new, _, rfl, _, hwrap, hgroups, hnew, rfl⟩ :=
    summarize_cases hsummary
  have hexposes : ∀ n ∈ (columns.map fun c => (c.1, c.2.shape)).flatMap (fun c => c.2.reads) ++
      s.groups.toList, ∀ x, (Scope.ofSelectList base).lookup n = .ok x → x.exposes n = true := by
    intro n hn x hx
    refine exposes_of_wrapIf hwrap ?_ hn hx
    intro hneeded
    simp only [Bool.or_eq_false_iff] at hneeded
    exact hneeded.2
  have hstand : ∀ c ∈ columns, StandForGroups (.ofSelectList base) s.groups.toList
      (groups.map Prod.snd) c.2.shape.reads := by
    intro c hc n hn x hx
    have hexposed : x.exposes n = true := by
      refine hexposes n (List.mem_append_left _ ?_) x hx
      exact List.mem_flatMap.2 ⟨(c.1, c.2.shape), List.mem_map_of_mem hc, hn⟩
    refine ⟨Expr.isColumn_of_exposes hexposed, mem_groupBy_iff hgroups ?_ hx hexposed⟩
    exact fun g hg => hexposes g (List.mem_append_right _ hg)
  refine ⟨groups, new, rfl, (Scope.project_eq_ok.1 hgroups).1, rfl, ?_⟩
  rw [List.forall₂_map_left_iff] at hnew
  refine forall₂_imp_mem hnew fun c hc x hx => ⟨hx.1, ?_, ?_⟩
  · exact windowFree_compileIn hf (by simp) (fun n hn y hy => (hstand c hc n hn y hy).1) hx.2
  · exact (sameLevel_compileIn hf (hstand c hc) hx.2).2

/-- People by group. -/
def peopleByGroup : Request where
  collection := "people"
  pipeline := [.groupBy [.column "g"] false]

/-- How far the largest number of a group lies above the group and the smallest number. -/
def spread : ColumnExpr :=
  .call .subtract [.call .max [.column "x"] [],
    .call .add [.column "g", .call .min [.column "x"] []] []] []

theorem peopleByGroup_spread_constant : ∃ s t x,
    peopleByGroup.run peopleCatalog (.builtIn .postgres) = .ok s ∧
    s.summarize [("spread", spread)] = .ok t ∧ ("spread", x) ∈ t.last.columns ∧
    t.last.groupBy.length = 1 ∧ x.ConstantIn t.last.groupBy := by
  have hrun : (peopleByGroup.run peopleCatalog (.builtIn .postgres)).map (fun s =>
      (s.dialect, s.groups.toList, (s.summarize [("spread", spread)]).isOk)) =
      .ok (.postgres, ["g"], true) := by decide +kernel
  obtain ⟨s, hs, hfacts⟩ := map_eq_ok.1 hrun
  simp only [Prod.mk.injEq] at hfacts
  obtain ⟨hdialect, hgroups, hok⟩ := hfacts
  obtain ⟨t, ht⟩ := exists_eq_ok hok
  have hreach : Reachable peopleCatalog.infos {f | ∃ dialect, f = .builtIn dialect} s := by
    refine .mono ?_ (peopleByGroup.run_reachable hs)
    intro f hf
    exact ⟨.postgres, hf⟩
  obtain ⟨groups, new, hcolumns, hnames, hgroupBy, hnew⟩ := summary_constant_iff hreach ht
  obtain ⟨⟨name, x⟩, rest, ⟨hname, _, hconstant⟩, _, rfl⟩ := List.forall₂_cons_left_iff.1 hnew
  obtain rfl : name = "spread" := hname
  rw [hdialect, hgroups] at hconstant
  refine ⟨s, t, x, hs, ht, ?_, ?_, hconstant.2 ?_⟩
  · rw [hcolumns]
    exact List.mem_append_right _ List.mem_cons_self
  · rw [hgroupBy, List.length_map, ← List.length_map (f := Prod.fst), hnames, hgroups]
    rfl
  -- Both aggregates have a column for their argument, and the group is grouped by.
  · have hnumber : (ColumnExpr.column "x").RowLevel .postgres := .column rfl (by decide)
    have hgroup : (ColumnExpr.column "g").GroupLevel .postgres ["g"] :=
      .column rfl (by decide) (by decide)
    have hmax : (ColumnExpr.call .max [.column "x"] []).GroupLevel .postgres ["g"] :=
      .aggregate (t := .function "max") rfl rfl (by simpa [Template.used] using hnumber)
    have hmin : (ColumnExpr.call .min [.column "x"] []).GroupLevel .postgres ["g"] :=
      .aggregate (t := .function "min") rfl rfl (by simpa [Template.used] using hnumber)
    have hsum : (ColumnExpr.call .add [.column "g", .call .min [.column "x"] []] []).GroupLevel
        .postgres ["g"] :=
      .call (t := .operator "+") rfl (by simpa [Template.used] using ⟨hgroup, hmin⟩)
    exact .call (t := .operator "-") rfl (by simpa [Template.used] using ⟨hmax, hsum⟩)

/-- A maximum is summed up and a number is taken as it is. Neither is constant, and both are
accepted. -/
theorem people_summarized_without_constancy : ∃ t x y,
    (people .postgres).summarize [("total", .call .sum [.call .max [.column "x"] []] []),
      ("number", .column "x")] = .ok t ∧
    t.last.columns = [("total", x), ("number", y)] ∧
    ¬x.ConstantIn t.last.groupBy ∧ ¬y.ConstantIn t.last.groupBy := by
  refine ⟨_, _, _, rfl, rfl, ?_, ?_⟩
  · intro h
    have hargument := (Expr.constantIn_aggregate rfl).1 h _ List.mem_cons_self
    cases (Expr.rowLevel_iff.1 hargument).1
  · intro h
    exact absurd (Expr.constantIn_column.1 h) List.not_mem_nil

end PipelineSql
