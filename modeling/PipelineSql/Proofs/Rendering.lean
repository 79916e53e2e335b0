import Mathlib.Data.List.Basic
import PipelineSql.Proofs.Expressions
import PipelineSql.Sql.Render

/-!
# All renderings of a query are one statement

Texts are the only values that a rendering may write in more than one way. What stands between
them does not depend on how they are written, so a statement is a text with holes, and every
rendering fills the holes from left to right.
-/

namespace PipelineSql.Sql

section Texts

mutual

/-- The texts among the values of an expression, from left to right. -/
def Expr.texts : Expr → List String
  | .and l r => l.texts ++ r.texts
  | .or l r => l.texts ++ r.texts
  | .not e => e.texts
  | .binary l _ r => l.texts ++ r.texts
  | .isIn e es => e.texts ++ textsOfList es
  | .isNull e => e.texts
  | .isNotNull e => e.texts
  | .negate e => e.texts
  | .call _ args => textsOfList args
  | .case whens otherwise => textsOfWhens whens ++ textsOfOption otherwise
  | .window e ⟨partitionBy, orderBy, _⟩ =>
    e.texts ++ textsOfList partitionBy ++ textsOfOrdered orderBy
  | .column _ => []
  | .value (.str s) => [s]
  | .value _ => []
  | .cast e _ => e.texts
  | .countAll => []
  | .count e => e.texts
  | .countDistinct e => e.texts

def textsOfList : List Expr → List String
  | [] => []
  | e :: es => e.texts ++ textsOfList es

def textsOfWhens : List (Expr × Expr) → List String
  | [] => []
  | (c, e) :: rest => c.texts ++ e.texts ++ textsOfWhens rest

def textsOfOption : Option Expr → List String
  | none => []
  | some e => e.texts

def textsOfOrdered : List (Ordered Expr) → List String
  | [] => []
  | ⟨e, _⟩ :: rest => e.texts ++ textsOfOrdered rest

end

mutual

/-- The texts among the values of a query, clause after clause. -/
def Select.texts : Select → List String
  | ⟨_, columns, source, joins, condition, groupBy, orderBy, _, _⟩ =>
    columns.flatMap (fun c => c.2.texts) ++ textsOfSource source ++ textsOfJoins joins ++
      condition.texts ++ groupBy.flatMap Expr.texts ++ orderBy.flatMap fun t => t.target.texts

def textsOfSource : Option (Source Select) → List String
  | none => []
  | some (.table _ _) => []
  | some (.subquery q _) => q.texts

def textsOfJoins : List (Joined Select) → List String
  | [] => []
  | ⟨_, q, _, condition⟩ :: rest => q.texts ++ condition.texts ++ textsOfJoins rest

end

@[simp] lemma textsOfList_eq (es : List Expr) : textsOfList es = es.flatMap Expr.texts := by
  induction es with
  | nil => rfl
  | cons e es ih => rw [textsOfList, ih, List.flatMap_cons]

@[simp] lemma textsOfWhens_eq (whens : List (Expr × Expr)) :
    textsOfWhens whens = whens.flatMap fun w => w.1.texts ++ w.2.texts := by
  induction whens with
  | nil => rfl
  | cons w whens ih => rw [textsOfWhens, ih, List.flatMap_cons]

@[simp] lemma textsOfOrdered_eq (terms : List (Ordered Expr)) :
    textsOfOrdered terms = terms.flatMap fun t => t.target.texts := by
  induction terms with
  | nil => rfl
  | cons t terms ih => rw [textsOfOrdered, ih, List.flatMap_cons]

end Texts

section Holes

/-- The value that a fragment leaves to the rendering. -/
def Fragment.hole? : Fragment → Option String
  | .param v => some v
  | _ => none

/-- The values that fragments leave to the rendering, in order. -/
def holes (fragments : List Fragment) : List String := fragments.filterMap Fragment.hole?

@[simp] lemma holes_nil : holes [] = [] := rfl

@[simp] lemma holes_append (fs gs : List Fragment) : holes (fs ++ gs) = holes fs ++ holes gs :=
  List.filterMap_append

lemma holes_flatten (items : List (List Fragment)) : holes items.flatten = items.flatMap holes := by
  rw [holes, List.filterMap_flatten]
  rfl

@[simp] lemma holes_plain (s : String) (fs : List Fragment) : holes (.plain s :: fs) = holes fs :=
  rfl

@[simp] lemma holes_identifier (s : String) (fs : List Fragment) :
    holes (.identifier s :: fs) = holes fs := rfl

@[simp] lemma holes_alias (a : TableAlias) (fs : List Fragment) :
    holes (a.fragment :: fs) = holes fs := rfl

@[simp] lemma holes_separated (between : String) (items : List (List Fragment)) :
    holes (separated between items) = items.flatMap holes := by
  induction items using separated.induct with
  | case1 => rfl
  | case2 item => simp [separated]
  | case3 item rest hrest ih =>
    rw [separated, holes_append, holes_plain, ih, List.flatMap_cons]
    exact hrest

lemma holes_clause (keyword : String) (items : List (List Fragment)) :
    holes (clause keyword items).flatten = items.flatMap holes := by
  cases items with
  | nil => rfl
  | cons item rest => simp [clause]

lemma listFragments_eq (es : List Expr) : listFragments es = es.map Expr.fragments := by
  induction es with
  | nil => rfl
  | cons e es ih => rw [listFragments, ih, List.map_cons]

lemma orderFragments_eq (terms : List (Ordered Expr)) :
    orderFragments terms = terms.map fun t =>
      t.target.fragments ++ [.plain t.direction.keyword] := by
  induction terms with
  | nil => rfl
  | cons t terms ih => rw [orderFragments, ih, List.map_cons]

lemma whenFragments_eq (whens : List (Expr × Expr)) :
    whenFragments whens = whens.flatMap fun w =>
      .plain " WHEN " :: w.1.fragments ++ .plain " THEN " :: w.2.fragments := by
  induction whens with
  | nil => rfl
  | cons w whens ih => rw [whenFragments, ih, List.flatMap_cons]

@[simp] lemma holes_table (t : TableRef) : holes t.fragments = [] := by
  cases t with
  | stored schema table => cases schema <;> rfl
  | aliased a => rfl

lemma holes_column (r : ColumnRef) : holes r.fragments = [] := by
  cases r with
  | stored table name => simp [ColumnRef.fragments]
  | labelled table label => simp [ColumnRef.fragments]

lemma holes_list {es : List Expr} (h : ∀ e ∈ es, holes e.fragments = e.texts) :
    (listFragments es).flatMap holes = es.flatMap Expr.texts := by
  rw [listFragments_eq, List.flatMap_map]
  exact List.flatMap_congr h

lemma holes_ordered {terms : List (Ordered Expr)}
    (h : ∀ t ∈ terms, holes t.target.fragments = t.target.texts) :
    (orderFragments terms).flatMap holes = terms.flatMap fun t => t.target.texts := by
  rw [orderFragments_eq, List.flatMap_map]
  refine List.flatMap_congr ?_
  intro t ht
  simp [h t ht]

lemma holes_frame (frame : Option Frame) :
    (frame.map Frame.fragments).toList.flatMap holes = [] := by
  cases frame <;> rfl

lemma holes_expr (e : Expr) : holes e.fragments = e.texts := by
  induction e using Expr.induct with
  | and l r hl hr | or l r hl hr | binary l _ r hl hr => simp [Expr.fragments, Expr.texts, hl, hr]
  | not e he | isNull e he | isNotNull e he | negate e he | cast e _ he | count e he
  | countDistinct e he => simp [Expr.fragments, Expr.texts, he]
  | isIn e es he hes => simp [Expr.fragments, Expr.texts, he, holes_list hes]
  | call f args hargs => simp [Expr.fragments, Expr.texts, holes_list hargs]
  | case whens otherwise hwhens hotherwise =>
    have hw : holes (whenFragments whens) = whens.flatMap fun w => w.1.texts ++ w.2.texts := by
      rw [whenFragments_eq, List.flatMap_def, holes_flatten, List.flatMap_map]
      refine List.flatMap_congr ?_
      intro w hw
      simp [hwhens w hw]
    have ho : holes (elseFragments otherwise) = textsOfOption otherwise := by
      cases otherwise with
      | none => rfl
      | some e => exact hotherwise e rfl
    simp [Expr.fragments, Expr.texts, hw, ho]
  | window f clause hf hpartition horder =>
    obtain ⟨partitionBy, orderBy, frame⟩ := clause
    have hp : (Sql.clause "PARTITION BY " (listFragments partitionBy)).flatMap holes =
        partitionBy.flatMap Expr.texts := by
      rw [← holes_flatten, holes_clause, holes_list hpartition]
    have ho : (Sql.clause "ORDER BY " (orderFragments orderBy)).flatMap holes =
        orderBy.flatMap fun t => t.target.texts := by
      rw [← holes_flatten, holes_clause, holes_ordered horder]
    simp [Expr.fragments, Expr.texts, hf, hp, ho, holes_frame]
  | column r => rw [Expr.fragments, Expr.texts, holes_column]
  | value v => cases v with
    | bool b => cases b <;> rfl
    | null | int _ | float _ | str _ => rfl
  | countAll => rfl

lemma holes_columns (simpleNames : Bool) (columns : List (String × Expr)) :
    holes (separated ", " (columns.map (columnFragments simpleNames))) =
      columns.flatMap fun c => c.2.texts := by
  rw [holes_separated, List.flatMap_map]
  refine List.flatMap_congr ?_
  intro c _
  -- With or without its label, an entry has the texts of its expression.
  by_cases hname : (simpleNames && c.2.exposes c.1) = true
  · rw [columnFragments, if_pos hname, holes_expr]
  · rw [columnFragments, if_neg hname, holes_append, holes_expr]
    simp

/-- A condition that is left out has no texts. -/
lemma holes_where (condition : Expr) : holes (whereFragments condition) = condition.texts := by
  by_cases htrue : condition.isTrue = true
  · rw [whereFragments, if_pos htrue]
    unfold Expr.isTrue at htrue
    split at htrue
    · rfl
    · cases htrue
  · rw [whereFragments, if_neg htrue, holes_plain, holes_expr]

lemma holes_limit (keyword : String) (n : Option UInt32) :
    holes (limitFragments keyword n) = [] := by
  cases n <;> rfl

mutual

/-- A query leaves its texts to the rendering, clause after clause. -/
theorem holes_select (simpleNames : Bool) :
    ∀ q : Select, holes (q.fragments simpleNames) = q.texts
  | ⟨distinct, columns, source, joins, condition, groupBy, orderBy, limit, offset⟩ => by
    have hdistinct : holes (if distinct then [.plain "DISTINCT "] else []) = [] := by
      cases distinct <;> rfl
    have hgroup : holes (clause " GROUP BY " (listFragments groupBy)).flatten =
        groupBy.flatMap Expr.texts := by
      rw [holes_clause, holes_list fun e _ => holes_expr e]
    have horder : holes (clause " ORDER BY " (orderFragments orderBy)).flatten =
        orderBy.flatMap fun t => t.target.texts := by
      rw [holes_clause, holes_ordered fun t _ => holes_expr t.target]
    simp only [Select.fragments, Select.texts, holes_append, List.cons_append, holes_plain,
      hdistinct, holes_columns, holes_source, holes_joins, holes_where, hgroup, horder, holes_limit,
      List.nil_append, List.append_nil]

theorem holes_source (simpleNames : Bool) :
    ∀ source : Option (Source Select), holes (sourceFragments simpleNames source) =
      textsOfSource source
  | none => rfl
  | some (.table table a) => by simp [sourceFragments, textsOfSource]
  | some (.subquery q a) => by simp [sourceFragments, textsOfSource, holes_select simpleNames q]

theorem holes_joins (simpleNames : Bool) :
    ∀ joins : List (Joined Select), holes (joinFragments simpleNames joins) = textsOfJoins joins
  | [] => rfl
  | ⟨type, q, a, condition⟩ :: rest => by
    simp [joinFragments, textsOfJoins, holes_select simpleNames q, holes_expr,
      holes_joins simpleNames rest]

end

end Holes

section Weaving

/-- What a fragment writes in every rendering. -/
def Fragment.fixed : Fragment → String
  | .plain s => s
  | .identifier name => enclose '"' name
  | .quoted s => enclose '\'' s
  | .param _ => ""

/-- The text before the first hole, and each hole with the text after it. -/
def pieces : List Fragment → String × List (String × String)
  | [] => ("", [])
  | .param v :: fs => ("", (v, (pieces fs).1) :: (pieces fs).2)
  | f :: fs => (f.fixed ++ (pieces fs).1, (pieces fs).2)

namespace SqlText

end SqlText

end Weaving

end PipelineSql.Sql
