import PipelineSql.Proofs.Building
import PipelineSql.Proofs.Expressions

/-!
# Column references

The columns that an SQL expression refers to, at any depth. A property of references that holds of
the arguments of a builder, or of the parts of an expression, holds of what is made of them.
-/

namespace PipelineSql

namespace Sql

namespace Expr

mutual

/-- All column references of an expression. -/
def refs : Expr → List ColumnRef
  | .and l r => l.refs ++ r.refs
  | .or l r => l.refs ++ r.refs
  | .not e => e.refs
  | .binary l _ r => l.refs ++ r.refs
  | .isIn e es => e.refs ++ refsOfList es
  | .isNull e => e.refs
  | .isNotNull e => e.refs
  | .negate e => e.refs
  | .call _ args => refsOfList args
  | .case whens otherwise => refsOfWhens whens ++ refsOfOption otherwise
  | .window e ⟨partitionBy, orderBy, _⟩ => e.refs ++ refsOfList partitionBy ++ refsOfOrdered orderBy
  | .column ref => [ref]
  | .value _ => []
  | .cast e _ => e.refs
  | .countAll => []
  | .count e => e.refs
  | .countDistinct e => e.refs

def refsOfList : List Expr → List ColumnRef
  | [] => []
  | e :: es => e.refs ++ refsOfList es

def refsOfWhens : List (Expr × Expr) → List ColumnRef
  | [] => []
  | (c, e) :: rest => c.refs ++ e.refs ++ refsOfWhens rest

def refsOfOption : Option Expr → List ColumnRef
  | none => []
  | some e => e.refs

def refsOfOrdered : List (Ordered Expr) → List ColumnRef
  | [] => []
  | ⟨e, _⟩ :: rest => e.refs ++ refsOfOrdered rest

end

@[simp] lemma refsOfList_eq (es : List Expr) : refsOfList es = es.flatMap refs := by
  induction es with
  | nil => rfl
  | cons e es ih => exact congrArg (e.refs ++ ·) ih

@[simp] lemma refsOfWhens_eq (whens : List (Expr × Expr)) :
    refsOfWhens whens = whens.flatMap fun w => w.1.refs ++ w.2.refs := by
  induction whens with
  | nil => rfl
  | cons w whens ih => exact congrArg (w.1.refs ++ w.2.refs ++ ·) ih

@[simp] lemma refsOfOption_eq (o : Option Expr) : refsOfOption o = o.toList.flatMap refs := by
  cases o with
  | none => rfl
  | some e => exact (List.append_nil e.refs).symm

@[simp] lemma refsOfOrdered_eq (terms : List (Ordered Expr)) :
    refsOfOrdered terms = terms.flatMap fun t => t.target.refs := by
  induction terms with
  | nil => rfl
  | cons t terms ih => exact congrArg (t.target.refs ++ ·) ih

lemma refs_isIn (e : Expr) (es : List Expr) : (isIn e es).refs = e.refs ++ es.flatMap refs :=
  congrArg (e.refs ++ ·) (refsOfList_eq es)

lemma refs_call (f : String) (args : List Expr) : (call f args).refs = args.flatMap refs :=
  refsOfList_eq args

lemma refs_case (whens : List (Expr × Expr)) (otherwise : Option Expr) :
    (case whens otherwise).refs =
      (whens.flatMap fun w => w.1.refs ++ w.2.refs) ++ otherwise.toList.flatMap refs :=
  congrArg₂ (· ++ ·) (refsOfWhens_eq whens) (refsOfOption_eq otherwise)

lemma refs_window (f : Expr) (clause : Over Expr) : (window f clause).refs =
    f.refs ++ clause.partitionBy.flatMap refs ++ clause.orderBy.flatMap fun t => t.target.refs := by
  rw [← refsOfList_eq, ← refsOfOrdered_eq]
  rfl

/-- All references of an expression pass a test. -/
def Within (ok : ColumnRef → Prop) (e : Expr) : Prop := ∀ r ∈ e.refs, ok r

lemma Within.mono {ok ok' : ColumnRef → Prop} {e : Expr} (h : e.Within ok)
    (himp : ∀ r, ok r → ok' r) : e.Within ok' :=
  fun r hr => himp r (h r hr)

lemma within_labelled {ok : ColumnRef → Prop} {a : TableAlias} {label : String}
    (h : ok (.labelled (.aliased a) label)) : (labelled a label).Within ok := by
  intro r hr
  exact List.mem_singleton.1 hr ▸ h

lemma within_always {ok : ColumnRef → Prop} : always.Within ok := by
  intro r hr
  cases hr

lemma within_window {ok : ColumnRef → Prop} {f : Expr} {clause : Over Expr} (hf : f.Within ok)
    (hp : ∀ e ∈ clause.partitionBy, e.Within ok)
    (ho : ∀ t ∈ clause.orderBy, t.target.Within ok) : (window f clause).Within ok := by
  intro r hr
  simp only [refs_window, List.mem_append, List.mem_flatMap] at hr
  rcases hr with (hr | ⟨e, he, hr⟩) | ⟨t, ht, hr⟩
  · exact hf r hr
  · exact hp e he r hr
  · exact ho t ht r hr

end Expr

/-- The table through which a reference goes. -/
def ColumnRef.table : ColumnRef → TableRef
  | .stored table _ => table
  | .labelled table _ => table

/-- A labelled reference through one alias, pointed at another. -/
def ColumnRef.replaceAlias (old new : TableAlias) : ColumnRef → ColumnRef
  | .labelled (.aliased a) label => .labelled (.aliased (if a = old then new else a)) label
  | r => r

namespace Expr

variable (old new : TableAlias)

lemma refs_replaceAliasNode_column (r : ColumnRef) :
    (replaceAliasNode old new (.column r)).refs = [r.replaceAlias old new] := by
  obtain ⟨table, name⟩ | ⟨_ | a, label⟩ := r
  · rfl
  · rfl
  · by_cases ha : a = old
    · rw [replaceAliasNode, if_pos ha, ColumnRef.replaceAlias, if_pos ha]
      rfl
    · rw [replaceAliasNode, if_neg ha, ColumnRef.replaceAlias, if_neg ha]
      rfl

/-- Replacing an alias replaces it in every reference, and changes no other. -/
lemma refs_replaceAlias (e : Expr) :
    (e.replaceAlias old new).refs = e.refs.map (ColumnRef.replaceAlias old new) := by
  unfold replaceAlias
  induction e using induct with
  | and l r hl hr | or l r hl hr | binary l _ r hl hr =>
    simp [mapNodes, replaceAliasNode, refs, hl, hr]
  | not e he | isNull e he | isNotNull e he | negate e he | cast e _ he | count e he
  | countDistinct e he => simp [mapNodes, replaceAliasNode, refs, he]
  | isIn e es he hes =>
    simp only [mapNodes, replaceAliasNode, refs_isIn, mapList_eq, he, List.map_append,
      List.map_flatMap, List.flatMap_map, List.flatMap_congr hes]
  | call _ args hargs =>
    simp only [mapNodes, replaceAliasNode, refs_call, mapList_eq, List.map_flatMap,
      List.flatMap_map, List.flatMap_congr hargs]
  | case whens otherwise hwhens hotherwise =>
    have hw : ∀ w ∈ whens, (w.1.mapNodes (replaceAliasNode old new)).refs ++
        (w.2.mapNodes (replaceAliasNode old new)).refs =
          (w.1.refs ++ w.2.refs).map (ColumnRef.replaceAlias old new) := by
      intro w hw
      rw [(hwhens w hw).1, (hwhens w hw).2, List.map_append]
    simp only [mapNodes, replaceAliasNode, refs_case, mapWhens_eq, mapOption_eq, List.map_append,
      List.map_flatMap, List.flatMap_map]
    rw [List.flatMap_congr hw]
    cases otherwise with
    | none => simp
    | some e => simp [hotherwise e rfl]
  | window f clause hf hpartition horder =>
    simp only [mapNodes, replaceAliasNode, refs_window, mapList_eq, mapOrdered_eq, hf,
      List.map_append, List.map_flatMap, List.flatMap_map]
    rw [List.flatMap_congr hpartition, List.flatMap_congr horder]
  | column r =>
    rw [mapNodes, refs_replaceAliasNode_column]
    simp [refs]
  | value _ | countAll => simp [mapNodes, replaceAliasNode, refs]

end Expr

end Sql

open Sql (Expr ColumnRef)

/-- References are kept by everything that works row by row. -/
lemma within_rowClosed (ok : ColumnRef → Prop) :
    RowClosed (fun _ => True) (Expr.Within ok) where
  value := fun _ _ h => nomatch h
  and := by
    intro l r hl hr x hx
    exact (List.mem_append.1 hx).elim (hl x) (hr x)
  or := by
    intro l r hl hr x hx
    exact (List.mem_append.1 hx).elim (hl x) (hr x)
  not := fun _ h => h
  binary := by
    intro l _ r hl hr x hx
    exact (List.mem_append.1 hx).elim (hl x) (hr x)
  isIn := by
    intro e es he hes x hx
    simp only [Expr.refs_isIn, List.mem_append, List.mem_flatMap] at hx
    rcases hx with hx | ⟨y, hy, hx⟩
    · exact he x hx
    · exact hes y hy x hx
  isNull := fun _ h => h
  isNotNull := fun _ h => h
  negate := fun _ h => h
  call := by
    intro f args _ hargs x hx
    simp only [Expr.refs_call, List.mem_flatMap] at hx
    obtain ⟨y, hy, hx⟩ := hx
    exact hargs y hy x hx
  case := by
    intro whens otherwise hw ho x hx
    simp only [Expr.refs_case, List.mem_append, List.mem_flatMap, Option.mem_toList] at hx
    rcases hx with ⟨w, hmem, hx | hx⟩ | ⟨e, hmem, hx⟩
    · exact (hw w hmem).1 x hx
    · exact (hw w hmem).2 x hx
    · exact ho e hmem x hx
  cast := fun _ _ h => h

/-- A builder that refers to nothing but what its arguments refer to. -/
def Builder.PassesReferences (b : Builder) : Prop :=
  ∀ (a : Arguments) (ok : ColumnRef → Prop), (∀ x ∈ a.all, x.Within ok) →
    (∀ r, b a = .ok (.expression r) → r.Within ok) ∧
    ∀ call, b a = .ok (.window call) → call.function.Within ok ∧
      ∀ term, call.kind = .ranking (some term) → term.target.Within ok

/-- A table of such builders. -/
def FunctionTable.PassesReferences (f : FunctionTable) : Prop :=
  ∀ operation mode builder, f.lookup operation mode = .ok builder → builder.PassesReferences

lemma Template.build_passesReferences (t : Template) : Builder.PassesReferences t.build := by
  intro a ok ha
  constructor
  · intro r h
    rcases Template.build_expression (within_rowClosed ok) (fun _ _ => trivial) ha h with
      ⟨_, rfl⟩ | ⟨_, x, hx, rfl⟩ | hr
    · exact fun _ h => nomatch h
    · exact ha x hx
    · exact hr
  · intro call h
    obtain ⟨hfunction, hterm⟩ := Template.build_window h
    refine ⟨?_, fun term hk => ha _ (hterm term hk)⟩
    rcases hfunction with hf | ⟨f, xs, hxs, hf⟩
    · rw [hf]
      exact fun _ h => nomatch h
    · rw [hf]
      exact (within_rowClosed ok).call f xs trivial fun x hx => ha x (hxs x hx)

lemma FunctionTable.Standard.passesReferences {f : FunctionTable} (h : f.Standard) :
    f.PassesReferences := by
  intro operation mode builder hb
  obtain ⟨t, rfl⟩ := h operation mode builder (FunctionTable.lookup_eq_ok.1 hb)
  exact t.build_passesReferences

/-- Compiled expressions refer to what their scope and their window clauses refer to, and to the
labels of the windows that were taken out of them. -/
lemma scopingRules (env : CompileEnv) (mode : Mode) {ok : ColumnRef → Prop}
    (hf : env.functions.PassesReferences)
    (hp : ∀ e ∈ env.windows.partitionBy, e.Within ok)
    (ho : ∀ t ∈ env.windows.orderBy, t.target.Within ok) :
    CompileRules env mode
      (fun found => Expr.Within fun r => ok r ∨ ∃ table, env.windows.placement = .hoisted table ∧
        ∃ w ∈ found, r = .labelled (.aliased table) w.label)
      (Expr.Within ok) (fun w => w.expression.Within ok) where
  grow := by
    intro found more r h
    refine h.mono ?_
    rintro ref (href | ⟨table, htable, w, hw, href⟩)
    · exact Or.inl href
    · exact Or.inr ⟨table, htable, w, List.mem_append_left _ hw, href⟩
  weaken := fun found r h => h.mono fun ref => Or.inl
  literal := (within_rowClosed ok).value
  plain := by
    intro operation builder a r hb hr ha
    exact (hf operation mode builder hb a ok ha).1 r hr
  built := by
    intro operation builder a r found hb hr ha
    exact (hf operation mode builder hb a _ ha).1 r hr
  placed := by
    intro operation builder a call found hb hcall ha
    obtain ⟨hfunction, hterm⟩ := (hf operation mode builder hb a ok ha).2 call hcall
    have hwindow : (Expr.window call.function (env.windows.overClause call.kind)).Within ok := by
      refine Expr.within_window hfunction ?_ ?_
      · cases hk : call.kind with
        | aggregate => simpa [WindowContext.overClause] using hp
        | ranking term => cases term <;> simpa [WindowContext.overClause] using hp
        | cumulative => simpa [WindowContext.overClause] using hp
      · cases hk : call.kind with
        | aggregate => simp [WindowContext.overClause]
        | ranking term =>
          cases term with
          | none => simpa [WindowContext.overClause] using ho
          | some term => simpa [WindowContext.overClause] using hterm term hk
        | cumulative => simpa [WindowContext.overClause] using ho
    refine ⟨?_, hwindow⟩
    unfold WindowContext.place
    split
    · exact hwindow.mono fun ref => Or.inl
    · rename_i table htable
      have hnew := List.mem_append_right found (List.mem_singleton.2 rfl :
        (⟨freshLabel env.scope found,
          .window call.function (env.windows.overClause call.kind)⟩ : LabelledWindow) ∈ [_])
      exact Expr.within_labelled (Or.inr ⟨table, htable, _, hnew, rfl⟩)

end PipelineSql
