import PipelineSql.Proofs.References

/-!
# Putting expressions in the place of columns

Replacing the columns of an expression commutes with everything that expressions are made by, as
long as no column becomes a constant: the type of a cast is the one argument that a builder looks
into, and it has to stay the text that it was.
-/

namespace PipelineSql

open Sql (Expr Ordered Over ColumnRef TableAlias)

namespace Sql.Expr

/-- One step of `bindColumns`. -/
def bindColumnNode (f : ColumnRef → Expr) : Expr → Expr
  | .column r => f r
  | e => e

/-- Puts an expression in the place of every column. -/
def bindColumns (f : ColumnRef → Expr) (e : Expr) : Expr := e.mapNodes (bindColumnNode f)

section Equations

variable (f : ColumnRef → Expr)

@[simp] lemma bindColumns_and (l r : Expr) :
    (and l r).bindColumns f = .and (l.bindColumns f) (r.bindColumns f) := rfl

@[simp] lemma bindColumns_or (l r : Expr) :
    (or l r).bindColumns f = .or (l.bindColumns f) (r.bindColumns f) := rfl

@[simp] lemma bindColumns_not (e : Expr) : (not e).bindColumns f = .not (e.bindColumns f) := rfl

@[simp] lemma bindColumns_binary (l : Expr) (operator : String) (r : Expr) :
    (binary l operator r).bindColumns f = .binary (l.bindColumns f) operator (r.bindColumns f) :=
  rfl

@[simp] lemma bindColumns_isIn (e : Expr) (es : List Expr) :
    (isIn e es).bindColumns f = .isIn (e.bindColumns f) (es.map (bindColumns f)) :=
  congrArg (isIn _) (mapList_eq _ es)

@[simp] lemma bindColumns_isNull (e : Expr) :
    (isNull e).bindColumns f = .isNull (e.bindColumns f) := rfl

@[simp] lemma bindColumns_isNotNull (e : Expr) :
    (isNotNull e).bindColumns f = .isNotNull (e.bindColumns f) := rfl

@[simp] lemma bindColumns_negate (e : Expr) :
    (negate e).bindColumns f = .negate (e.bindColumns f) := rfl

@[simp] lemma bindColumns_call (name : String) (args : List Expr) :
    (call name args).bindColumns f = .call name (args.map (bindColumns f)) :=
  congrArg (call name) (mapList_eq _ args)

@[simp] lemma bindColumns_case (whens : List (Expr × Expr)) (otherwise : Option Expr) :
    (case whens otherwise).bindColumns f =
      .case (whens.map fun w => (w.1.bindColumns f, w.2.bindColumns f))
        (otherwise.map (bindColumns f)) :=
  congrArg₂ case (mapWhens_eq _ whens) (mapOption_eq _ otherwise)

@[simp] lemma bindColumns_window (e : Expr) (clause : Over Expr) :
    (window e clause).bindColumns f =
      .window (e.bindColumns f) ⟨clause.partitionBy.map (bindColumns f),
        clause.orderBy.map fun t => ⟨t.target.bindColumns f, t.direction⟩, clause.frame⟩ := by
  obtain ⟨partitionBy, orderBy, frame⟩ := clause
  exact congrArg₂ (fun p o => window (e.bindColumns f) ⟨p, o, frame⟩) (mapList_eq _ partitionBy)
    (mapOrdered_eq _ orderBy)

@[simp] lemma bindColumns_column (r : ColumnRef) : (column r).bindColumns f = f r := rfl

@[simp] lemma bindColumns_labelled (a : TableAlias) (label : String) :
    (labelled a label).bindColumns f = f (.labelled (.aliased a) label) := rfl

@[simp] lemma bindColumns_value (v : Literal) : (value v).bindColumns f = .value v := rfl

@[simp] lemma bindColumns_text (s : String) : (text s).bindColumns f = .text s := rfl

@[simp] lemma bindColumns_cast (e : Expr) (type : String) :
    (cast e type).bindColumns f = .cast (e.bindColumns f) type := rfl

@[simp] lemma bindColumns_countAll : countAll.bindColumns f = .countAll := rfl

@[simp] lemma bindColumns_count (e : Expr) : (count e).bindColumns f = .count (e.bindColumns f) :=
  rfl

@[simp] lemma bindColumns_countDistinct (e : Expr) :
    (countDistinct e).bindColumns f = .countDistinct (e.bindColumns f) := rfl

lemma bindColumns_conjunction (es : List Expr) :
    (conjunction es).bindColumns f = conjunction (es.map (bindColumns f)) := by
  have hfold : ∀ (es : List Expr) (e : Expr), (es.foldl and e).bindColumns f =
      (es.map (bindColumns f)).foldl and (e.bindColumns f) := by
    intro es
    induction es with
    | nil => exact fun e => rfl
    | cons x es ih => exact fun e => ih (.and e x)
  cases es with
  | nil => rfl
  | cons e es => exact hfold es e

end Equations

attribute [local simp] refs

/-- Only the columns of an expression decide what becomes of it. -/
lemma bindColumns_congr {f g : ColumnRef → Expr} {e : Expr} (h : ∀ r ∈ e.refs, f r = g r) :
    e.bindColumns f = e.bindColumns g := by
  induction e using induct with
  | and l r hl hr | or l r hl hr | binary l _ r hl hr =>
    simp only [refs, List.mem_append] at h
    simp [hl fun x hx => h x (Or.inl hx), hr fun x hx => h x (Or.inr hx)]
  | not e he | isNull e he | isNotNull e he | negate e he | cast e _ he | count e he
  | countDistinct e he => simp [he h]
  | isIn e es he hes =>
    simp only [refs_isIn, List.mem_append, List.mem_flatMap] at h
    rw [bindColumns_isIn, bindColumns_isIn, he fun x hx => h x (Or.inl hx)]
    exact congrArg _ (List.map_congr_left fun x hx =>
      hes x hx fun r hr => h r (Or.inr ⟨x, hx, hr⟩))
  | call _ args hargs =>
    simp only [refs_call, List.mem_flatMap] at h
    rw [bindColumns_call, bindColumns_call]
    exact congrArg _ (List.map_congr_left fun x hx => hargs x hx fun r hr => h r ⟨x, hx, hr⟩)
  | case whens otherwise hwhens hotherwise =>
    simp only [refs_case, List.mem_append, List.mem_flatMap, Option.mem_toList] at h
    rw [bindColumns_case, bindColumns_case]
    congr 1
    · refine List.map_congr_left fun w hw => Prod.ext ?_ ?_
      · exact (hwhens w hw).1 fun r hr => h r (Or.inl ⟨w, hw, Or.inl hr⟩)
      · exact (hwhens w hw).2 fun r hr => h r (Or.inl ⟨w, hw, Or.inr hr⟩)
    · refine Option.map_congr fun x hx => ?_
      exact hotherwise x hx fun r hr => h r (Or.inr ⟨x, hx, hr⟩)
  | window e clause he hpartition horder =>
    obtain ⟨partitionBy, orderBy, frame⟩ := clause
    simp only [refs_window, List.mem_append, List.mem_flatMap] at h
    rw [bindColumns_window, bindColumns_window, he fun r hr => h r (Or.inl (Or.inl hr))]
    congr 2
    · exact List.map_congr_left fun x hx =>
        hpartition x hx fun r hr => h r (Or.inl (Or.inr ⟨x, hx, hr⟩))
    · refine List.map_congr_left fun t ht => ?_
      rw [horder t ht fun r hr => h r (Or.inr ⟨t, ht, hr⟩)]
  | column r => exact h r (List.mem_singleton.2 rfl)
  | value _ | countAll => rfl

/-- What becomes of an expression shows what becomes of its columns. -/
lemma eq_of_bindColumns_eq {f g : ColumnRef → Expr} {e : Expr}
    (h : e.bindColumns f = e.bindColumns g) : ∀ r ∈ e.refs, f r = g r := by
  induction e using induct with
  | and l r hl hr | or l r hl hr | binary l _ r hl hr =>
    simp only [bindColumns_and, bindColumns_or, bindColumns_binary, and.injEq, or.injEq,
      binary.injEq, true_and] at h
    intro x hx
    exact (List.mem_append.1 hx).elim (hl h.1 x) (hr h.2 x)
  | not e he | isNull e he | isNotNull e he | negate e he | cast e _ he | count e he
  | countDistinct e he =>
    simp only [bindColumns_not, bindColumns_isNull, bindColumns_isNotNull, bindColumns_negate,
      bindColumns_cast, bindColumns_count, bindColumns_countDistinct, not.injEq, isNull.injEq,
      isNotNull.injEq, negate.injEq, cast.injEq, count.injEq, countDistinct.injEq, and_true] at h
    exact he h
  | isIn e es he hes =>
    simp only [bindColumns_isIn, isIn.injEq, List.map_inj_left] at h
    intro x hx
    simp only [refs_isIn, List.mem_append, List.mem_flatMap] at hx
    rcases hx with hx | ⟨y, hy, hx⟩
    · exact he h.1 x hx
    · exact hes y hy (h.2 y hy) x hx
  | call _ args hargs =>
    simp only [bindColumns_call, call.injEq, true_and, List.map_inj_left] at h
    intro x hx
    simp only [refs_call, List.mem_flatMap] at hx
    obtain ⟨y, hy, hx⟩ := hx
    exact hargs y hy (h y hy) x hx
  | case whens otherwise hwhens hotherwise =>
    simp only [bindColumns_case, case.injEq, List.map_inj_left, Prod.mk.injEq] at h
    intro x hx
    simp only [refs_case, List.mem_append, List.mem_flatMap, Option.mem_toList] at hx
    rcases hx with ⟨w, hw, hx | hx⟩ | ⟨y, hy, hx⟩
    · exact (hwhens w hw).1 (h.1 w hw).1 x hx
    · exact (hwhens w hw).2 (h.1 w hw).2 x hx
    · cases hy
      exact hotherwise y rfl (Option.some.inj h.2) x hx
  | window e clause he hpartition horder =>
    obtain ⟨partitionBy, orderBy, frame⟩ := clause
    simp only [bindColumns_window, window.injEq, Over.mk.injEq, List.map_inj_left,
      Ordered.mk.injEq] at h
    intro x hx
    simp only [refs_window, List.mem_append, List.mem_flatMap] at hx
    rcases hx with (hx | ⟨y, hy, hx⟩) | ⟨t, ht, hx⟩
    · exact he h.1 x hx
    · exact hpartition y hy (h.2.1 y hy) x hx
    · exact horder t ht (h.2.2.1 t ht).1 x hx
  | column r =>
    intro x hx
    obtain rfl : x = r := List.mem_singleton.1 hx
    exact h
  | value _ | countAll => exact fun x hx => absurd hx List.not_mem_nil

/-- The columns of an expression give way to the columns of what stands in their place. -/
lemma refs_bindColumns (f : ColumnRef → Expr) (e : Expr) :
    (e.bindColumns f).refs = e.refs.flatMap fun r => (f r).refs := by
  induction e using induct with
  | and l r hl hr | or l r hl hr | binary l _ r hl hr => simp [hl, hr]
  | not e he | isNull e he | isNotNull e he | negate e he | cast e _ he | count e he
  | countDistinct e he => simpa using he
  | isIn e es he hes =>
    simp only [bindColumns_isIn, refs_isIn, List.flatMap_append, List.flatMap_map,
      List.flatMap_assoc, he, List.flatMap_congr hes]
  | call _ args hargs =>
    simp only [bindColumns_call, refs_call, List.flatMap_map, List.flatMap_assoc,
      List.flatMap_congr hargs]
  | case whens otherwise hwhens hotherwise =>
    have hbranches : ∀ w ∈ whens, (w.1.bindColumns f).refs ++ (w.2.bindColumns f).refs =
        (w.1.refs ++ w.2.refs).flatMap fun r => (f r).refs := by
      intro w hw
      rw [(hwhens w hw).1, (hwhens w hw).2, List.flatMap_append]
    simp only [bindColumns_case, refs_case, List.flatMap_append, List.flatMap_map,
      List.flatMap_assoc, List.flatMap_congr hbranches]
    cases otherwise with
    | none => rfl
    | some e => simp [hotherwise e rfl]
  | window e clause he hpartition horder =>
    obtain ⟨partitionBy, orderBy, frame⟩ := clause
    simp only [bindColumns_window, refs_window, List.flatMap_append, List.flatMap_map,
      List.flatMap_assoc, he, List.flatMap_congr hpartition, List.flatMap_congr horder]
  | column r => simp
  | value _ | countAll => rfl

/-- Replacing columns twice is replacing them once. -/
lemma bindColumns_bindColumns (f g : ColumnRef → Expr) (e : Expr) :
    (e.bindColumns f).bindColumns g = e.bindColumns fun r => (f r).bindColumns g := by
  induction e using induct with
  | and l r hl hr | or l r hl hr | binary l _ r hl hr => simp [hl, hr]
  | not e he | isNull e he | isNotNull e he | negate e he | cast e _ he | count e he
  | countDistinct e he => simp [he]
  | isIn e es he hes => simpa [he] using hes
  | call _ args hargs => simpa using hargs
  | case whens otherwise hwhens hotherwise =>
    simp only [bindColumns_case, List.map_map, Option.map_map]
    congr 1
    · refine List.map_congr_left fun w hw => Prod.ext (hwhens w hw).1 (hwhens w hw).2
    · exact Option.map_congr hotherwise
  | window e clause he hpartition horder =>
    obtain ⟨partitionBy, orderBy, frame⟩ := clause
    simp only [bindColumns_window, List.map_map, he]
    congr 2
    · exact List.map_congr_left hpartition
    · refine List.map_congr_left fun t ht => ?_
      exact congrArg₂ Ordered.mk (horder t ht) rfl
  | column r => rfl
  | value _ | countAll => rfl

@[simp] lemma bindColumns_self (e : Expr) : e.bindColumns .column = e := by
  induction e using induct with
  | and l r hl hr | or l r hl hr | binary l _ r hl hr => simp [hl, hr]
  | not e he | isNull e he | isNotNull e he | negate e he | cast e _ he | count e he
  | countDistinct e he => simp [he]
  | isIn e es he hes =>
    have hvalues : es.map (bindColumns .column) = es :=
      (List.map_congr_left hes).trans (List.map_id es)
    simp [he, hvalues]
  | call _ args hargs =>
    have hall : args.map (bindColumns .column) = args :=
      (List.map_congr_left hargs).trans (List.map_id args)
    simp [hall]
  | case whens otherwise hwhens hotherwise =>
    have hbranches : whens.map (fun w => (w.1.bindColumns .column, w.2.bindColumns .column)) =
        whens := by
      refine (List.map_congr_left fun w hw => ?_).trans (List.map_id whens)
      exact Prod.ext (hwhens w hw).1 (hwhens w hw).2
    have hlast : otherwise.map (bindColumns .column) = otherwise :=
      (Option.map_congr hotherwise).trans Option.map_id'
    rw [bindColumns_case, hbranches, hlast]
  | window e clause he hpartition horder =>
    obtain ⟨partitionBy, orderBy, frame⟩ := clause
    have hparts : partitionBy.map (bindColumns .column) = partitionBy :=
      (List.map_congr_left hpartition).trans (List.map_id partitionBy)
    have hterms : orderBy.map (fun t => Ordered.mk (t.target.bindColumns .column) t.direction) =
        orderBy := by
      refine (List.map_congr_left fun t ht => ?_).trans (List.map_id orderBy)
      exact congrArg₂ Ordered.mk (horder t ht) rfl
    rw [bindColumns_window, he, hparts, hterms]
  | column r => rfl
  | value _ | countAll => rfl

/-- An expression stays as it is when each of its columns does. -/
lemma bindColumns_eq_self {f : ColumnRef → Expr} {e : Expr} (h : ∀ r ∈ e.refs, f r = .column r) :
    e.bindColumns f = e :=
  (bindColumns_congr h).trans (bindColumns_self e)

/-- Replacing an alias is replacing columns. -/
lemma replaceAlias_eq_bindColumns (old new : TableAlias) (e : Expr) :
    e.replaceAlias old new = e.bindColumns fun r => .column (r.replaceAlias old new) := by
  have hnode : replaceAliasNode old new =
      bindColumnNode fun r => .column (r.replaceAlias old new) := by
    funext e
    cases e with
    | column r =>
      obtain ⟨table, name⟩ | ⟨_ | a, label⟩ := r
      · rfl
      · rfl
      · by_cases ha : a = old
        · simp [replaceAliasNode, bindColumnNode, ColumnRef.replaceAlias, labelled, ha]
        · simp [replaceAliasNode, bindColumnNode, ColumnRef.replaceAlias, labelled, ha]
    | _ => rfl
  rw [replaceAlias, hnode]
  rfl

end Sql.Expr

section Building

variable (f : ColumnRef → Expr)

/-- Puts expressions in the place of the columns of ordering terms. -/
def bindOrder (order : List (Ordered Expr)) : List (Ordered Expr) :=
  order.map fun term => ⟨term.target.bindColumns f, term.direction⟩

/-- Puts expressions in the place of the columns of arguments. -/
def Arguments.bindColumns (a : Arguments) : Arguments where
  args := a.args.map (Expr.bindColumns f)
  keywords := a.keywords.map fun k => (k.1, k.2.bindColumns f)

def WindowKind.bindColumns : WindowKind → WindowKind
  | .aggregate => .aggregate
  | .ranking term => .ranking (term.map fun t => ⟨t.target.bindColumns f, t.direction⟩)
  | .cumulative => .cumulative

def WindowCall.bindColumns (c : WindowCall) : WindowCall where
  function := c.function.bindColumns f
  kind := c.kind.bindColumns f

def Built.bindColumns : Built → Built
  | .expression e => .expression (e.bindColumns f)
  | .window call => .window (call.bindColumns f)

namespace Arguments

/-- Only the columns of the arguments decide what becomes of them. -/
lemma bindColumns_congr {f g : ColumnRef → Expr} {a : Arguments}
    (h : ∀ x ∈ a.all, x.bindColumns f = x.bindColumns g) : a.bindColumns f = a.bindColumns g := by
  simp only [all, List.forall_mem_append, List.forall_mem_map] at h
  simp only [bindColumns, mk.injEq]
  exact ⟨List.map_congr_left h.1, List.map_congr_left fun k hk => Prod.ext rfl (h.2 k hk)⟩

lemma bindColumns_self (a : Arguments) : a.bindColumns .column = a := by
  have hargs : a.args.map (Expr.bindColumns .column) = a.args :=
    (List.map_congr_left fun x _ => x.bindColumns_self).trans (List.map_id _)
  simp [bindColumns, hargs]

variable {α β : Type} (a : Arguments)

lemma one_bindColumns {g : Expr → α} {g' : Expr → β} {h : α → β}
    (hg : ∀ x, g' (x.bindColumns f) = h (g x)) :
    (a.bindColumns f).one g' = (a.one g).map h := by
  obtain ⟨args, keywords⟩ := a
  rcases keywords with _ | ⟨k, ks⟩
  · rcases args with _ | ⟨x, _ | ⟨y, rest⟩⟩ <;> simp [bindColumns, one, hg, Except.map]
  · rfl

lemma two_bindColumns {g : Expr → Expr → α} {g' : Expr → Expr → β} {h : α → β}
    (hg : ∀ x y, g' (x.bindColumns f) (y.bindColumns f) = h (g x y)) :
    (a.bindColumns f).two g' = (a.two g).map h := by
  obtain ⟨args, keywords⟩ := a
  rcases keywords with _ | ⟨k, ks⟩
  · rcases args with _ | ⟨x, _ | ⟨y, _ | ⟨z, rest⟩⟩⟩ <;> simp [bindColumns, two, hg, Except.map]
  · rfl

lemma three_bindColumns {g : Expr → Expr → Expr → α} {g' : Expr → Expr → Expr → β} {h : α → β}
    (hg : ∀ x y z, g' (x.bindColumns f) (y.bindColumns f) (z.bindColumns f) = h (g x y z)) :
    (a.bindColumns f).three g' = (a.three g).map h := by
  obtain ⟨args, keywords⟩ := a
  rcases keywords with _ | ⟨k, ks⟩
  · rcases args with _ | ⟨x, _ | ⟨y, _ | ⟨z, _ | ⟨w, rest⟩⟩⟩⟩ <;>
      simp [bindColumns, three, hg, Except.map]
  · rfl

lemma atMostOne_bindColumns {fault : ArgumentFault} {g : Option Expr → α} {g' : Option Expr → β}
    {h : α → β} (hg : ∀ x, g' (x.map (Expr.bindColumns f)) = h (g x)) :
    (a.bindColumns f).atMostOne fault g' = (a.atMostOne fault g).map h := by
  obtain ⟨args, keywords⟩ := a
  have hnone := hg none
  have hsome := fun x => hg (some x)
  simp only [Option.map_none, Option.map_some] at hnone hsome
  rcases keywords with _ | ⟨k, ks⟩
  · rcases args with _ | ⟨x, _ | ⟨y, rest⟩⟩ <;>
      simp [bindColumns, atMostOne, hnone, hsome, Except.map]
  · rcases args with _ | ⟨x, _ | ⟨y, rest⟩⟩ <;> rfl

lemma lookup_bindColumns (key : String) : (a.bindColumns f).keywords.lookup key =
    (a.keywords.lookup key).map (Expr.bindColumns f) := by
  obtain ⟨args, keywords⟩ := a
  induction keywords with
  | nil => rfl
  | cons k ks ih =>
    obtain ⟨name, x⟩ := k
    simp only [bindColumns, List.map_cons] at ih ⊢
    rw [lookup_cons_eq_ite, lookup_cons_eq_ite, ih]
    split <;> rfl

end Arguments

lemma pairUp_bindColumns (l : List Expr) : pairUp (l.map (Expr.bindColumns f)) =
    (pairUp l).map fun w => (w.1.bindColumns f, w.2.bindColumns f) := by
  induction l using pairUp.induct with
  | case1 c e rest ih => simp [pairUp, ih]
  | case2 l hl =>
    rcases l with _ | ⟨x, _ | ⟨y, rest⟩⟩
    · rfl
    · rfl
    · exact absurd rfl (hl x y rest)

lemma buildCase_bindColumns (a : Arguments) :
    buildCase (a.bindColumns f) = (buildCase a).map (Expr.bindColumns f) := by
  have hkeys : ((a.bindColumns f).keywords.filter fun k => k.1 ≠ "default").head? =
      ((a.keywords.filter fun k => k.1 ≠ "default").head?).map
        fun k => (k.1, k.2.bindColumns f) := by
    rw [Arguments.bindColumns, List.filter_map, List.head?_map]
    rfl
  unfold buildCase
  rw [hkeys, a.lookup_bindColumns]
  cases (a.keywords.filter fun k => k.1 ≠ "default").head? with
  | some k => rfl
  | none =>
    have hempty : (a.bindColumns f).args.isEmpty = a.args.isEmpty := by simp [Arguments.bindColumns]
    have hlength : (a.bindColumns f).args.length = a.args.length := by simp [Arguments.bindColumns]
    simp only [Option.map_none, hempty, hlength]
    split
    · rfl
    · simp [Except.map, Arguments.bindColumns, pairUp_bindColumns]

lemma buildIsIn_bindColumns (a : Arguments) :
    buildIsIn (a.bindColumns f) = (buildIsIn a).map (Expr.bindColumns f) := by
  obtain ⟨args, keywords⟩ := a
  rcases keywords with _ | ⟨k, ks⟩
  · rcases args with _ | ⟨x, _ | ⟨y, rest⟩⟩ <;>
      simp [Arguments.bindColumns, buildIsIn, Except.map, Expr.never]
  · rfl

lemma buildRound_bindColumns (a : Arguments) :
    buildRound (a.bindColumns f) = (buildRound a).map (Expr.bindColumns f) := by
  obtain ⟨args, keywords⟩ := a
  rcases keywords with _ | ⟨k, ks⟩ <;>
    rcases args with _ | ⟨x, _ | ⟨y, _ | ⟨z, rest⟩⟩⟩ <;>
      simp [Arguments.bindColumns, buildRound, Arguments.one, Arguments.two, Except.map]

lemma buildCoalesce_bindColumns (a : Arguments) :
    buildCoalesce (a.bindColumns f) = (buildCoalesce a).map (Expr.bindColumns f) := by
  obtain ⟨args, keywords⟩ := a
  rcases keywords with _ | ⟨k, ks⟩ <;>
    rcases args with _ | ⟨x, rest⟩ <;>
      simp [Arguments.bindColumns, buildCoalesce, Except.map, Expr.coalesce]

lemma Matching.pattern_bindColumns (m : Matching) (needle : Expr) :
    m.pattern (needle.bindColumns f) = (m.pattern needle).bindColumns f := by
  cases m <;> simp [pattern]

variable {f}

/-- Building commutes with replacing columns when casts do. -/
lemma Template.build_bindColumns_of_casts (t : Template) (a : Arguments)
    (hcast : ∀ dialect, t = .cast dialect →
      buildCast dialect (a.bindColumns f) = (buildCast dialect a).map (Expr.bindColumns f)) :
    t.build (a.bindColumns f) = (t.build a).map (Built.bindColumns f) := by
  have hmap : ∀ {x y : Except ArgumentFault Expr}, x = y.map (Expr.bindColumns f) →
      x.map Built.expression = (y.map Built.expression).map (Built.bindColumns f) := by
    rintro _ y rfl
    cases y <;> rfl
  cases t with
  | operator | and | or => exact a.two_bindColumns f fun _ _ => rfl
  | function name | functionOf name text | yearOfText | mondayOfText =>
    exact a.one_bindColumns f fun _ => by simp [Built.bindColumns]
  | not | negate | isNull | isNotNull | countDistinct => exact a.one_bindColumns f fun _ => rfl
  | between => exact a.three_bindColumns f fun _ _ _ => rfl
  | ifElse => exact a.three_bindColumns f fun _ _ _ => by simp [Built.bindColumns]
  | like m =>
    exact a.two_bindColumns f fun _ y => by simp [Built.bindColumns, m.pattern_bindColumns]
  | isIn => exact hmap (buildIsIn_bindColumns f a)
  | round => exact hmap (buildRound_bindColumns f a)
  | caseWhen => exact hmap (buildCase_bindColumns f a)
  | coalesce => exact hmap (buildCoalesce_bindColumns f a)
  | cast dialect => exact hmap (hcast dialect rfl)
  | countRows | countPartition =>
    rw [build, build]
    exact a.atMostOne_bindColumns f fun _ => rfl
  | overPartition name | running name =>
    exact a.one_bindColumns f fun _ => by
      simp [Built.bindColumns, WindowCall.bindColumns, WindowKind.bindColumns]
  | ranking name =>
    rw [build, build]
    refine a.atMostOne_bindColumns f fun x => ?_
    cases x <;> simp [Built.bindColumns, WindowCall.bindColumns, WindowKind.bindColumns]

/-- A cast that succeeds has been given a text as its type, which replacing columns leaves alone. -/
lemma buildCast_bound {dialect : Dialect} {a : Arguments} {e : Expr}
    (h : buildCast dialect a = .ok e) :
    buildCast dialect (a.bindColumns f) = .ok (e.bindColumns f) := by
  have htarget : ∀ {target : Expr} {type : String}, castTarget dialect target = .ok type →
      castTarget dialect (target.bindColumns f) = .ok type := by
    intro target type htype
    unfold castTarget at htype
    split at htype
    · exact htype
    · cases htype
  unfold buildCast at h
  split at h
  · rename_i x target hargs hkey
    obtain ⟨type, htype, rfl⟩ := map_eq_ok.1 h
    have hargs' : (a.bindColumns f).args = [x.bindColumns f] := by
      simp [Arguments.bindColumns, hargs]
    rw [buildCast, a.lookup_bindColumns, hkey, hargs']
    simp [htarget htype, Except.map]
  · rename_i x target hargs hkey
    obtain ⟨type, htype, rfl⟩ := map_eq_ok.1 h
    have hargs' : (a.bindColumns f).args = [x.bindColumns f, target.bindColumns f] := by
      simp [Arguments.bindColumns, hargs]
    rw [buildCast, a.lookup_bindColumns, hkey, hargs']
    simp [htarget htype, Except.map]
  · cases h

/-- What can be built is built from other columns as well. -/
lemma Template.build_bound {t : Template} {a : Arguments} {b : Built} (h : t.build a = .ok b) :
    t.build (a.bindColumns f) = .ok (b.bindColumns f) := by
  have hbuild := t.build_bindColumns_of_casts (f := f) a ?_
  · rw [hbuild, h]
    rfl
  · rintro dialect rfl
    obtain ⟨e, he, _⟩ := map_eq_ok.1 h
    rw [he, buildCast_bound he]
    rfl

variable (hf : ∀ r v, f r ≠ .value v)

include hf

/-- A type is given by a text, and no column becomes one. -/
lemma castTarget_bindColumns (dialect : Dialect) (target : Expr) :
    castTarget dialect (target.bindColumns f) = castTarget dialect target := by
  cases target with
  | column r =>
    have hcolumn : ∀ e : Expr, (∀ v, e ≠ .value v) →
        castTarget dialect e = .error .typeNotText := by
      intro e he
      unfold castTarget
      split
      · exact absurd rfl (he _)
      · rfl
    rw [Expr.bindColumns_column, hcolumn (f r) (hf r), hcolumn (.column r) (by simp)]
  | value v => rfl
  | window e clause => rfl
  | _ => rfl

lemma buildCast_bindColumns (dialect : Dialect) (a : Arguments) :
    buildCast dialect (a.bindColumns f) = (buildCast dialect a).map (Expr.bindColumns f) := by
  have hcast : ∀ x target : Expr, (castTarget dialect (target.bindColumns f)).map
      (fun type => .cast (x.bindColumns f) type) =
      ((castTarget dialect target).map fun type => Expr.cast x type).map (Expr.bindColumns f) := by
    intro x target
    rw [castTarget_bindColumns hf]
    cases castTarget dialect target <;> rfl
  unfold buildCast
  rw [a.lookup_bindColumns]
  obtain ⟨args, keywords⟩ := a
  rcases args with _ | ⟨x, _ | ⟨y, _ | ⟨z, rest⟩⟩⟩
  · cases keywords.lookup "dtype" <;> rfl
  · cases keywords.lookup "dtype" with
    | none => rfl
    | some target => exact hcast x target
  · cases keywords.lookup "dtype" with
    | none => exact hcast x y
    | some target => rfl
  · cases keywords.lookup "dtype" <;> rfl

/-- Building commutes with replacing columns. -/
theorem Template.build_bindColumns (t : Template) (a : Arguments) :
    t.build (a.bindColumns f) = (t.build a).map (Built.bindColumns f) :=
  t.build_bindColumns_of_casts a fun dialect _ => buildCast_bindColumns hf dialect a

end Building

end PipelineSql
