import Mathlib.Tactic.Lemma
import PipelineSql.Sql.Expr

/-!
# Induction over SQL expressions

The parts of an expression sit in lists, pairs and options. Induction over expressions is stated
once for all of these, and the traversals are read as the library functions that they are.
-/

namespace PipelineSql.Sql.Expr

section Induction

set_option linter.unusedSectionVars false

variable {motive : Expr → Prop}
  (and : ∀ l r, motive l → motive r → motive (.and l r))
  (or : ∀ l r, motive l → motive r → motive (.or l r))
  (not : ∀ e, motive e → motive (.not e))
  (binary : ∀ l operator r, motive l → motive r → motive (.binary l operator r))
  (isIn : ∀ e es, motive e → (∀ x ∈ es, motive x) → motive (.isIn e es))
  (isNull : ∀ e, motive e → motive (.isNull e))
  (isNotNull : ∀ e, motive e → motive (.isNotNull e))
  (negate : ∀ e, motive e → motive (.negate e))
  (call : ∀ f args, (∀ x ∈ args, motive x) → motive (.call f args))
  (case : ∀ whens otherwise, (∀ w ∈ whens, motive w.1 ∧ motive w.2) →
    (∀ e ∈ otherwise, motive e) → motive (.case whens otherwise))
  (window : ∀ f clause, motive f → (∀ x ∈ clause.partitionBy, motive x) →
    (∀ t ∈ clause.orderBy, motive t.target) → motive (.window f clause))
  (column : ∀ r, motive (.column r))
  (value : ∀ v, motive (.value v))
  (cast : ∀ e type, motive e → motive (.cast e type))
  (countAll : motive .countAll)
  (count : ∀ e, motive e → motive (.count e))
  (countDistinct : ∀ e, motive e → motive (.countDistinct e))

include and or not binary isIn isNull isNotNull negate call case window column value cast countAll
  count countDistinct

mutual

/-- Induction over an expression, with what is known of all parts in lists. -/
@[elab_as_elim]
theorem induct : ∀ e, motive e
  | .and l r => and l r (induct l) (induct r)
  | .or l r => or l r (induct l) (induct r)
  | .not e => not e (induct e)
  | .binary l operator r => binary l operator r (induct l) (induct r)
  | .isIn e es => isIn e es (induct e) (inductList es)
  | .isNull e => isNull e (induct e)
  | .isNotNull e => isNotNull e (induct e)
  | .negate e => negate e (induct e)
  | .call f args => call f args (inductList args)
  | .case whens otherwise => case whens otherwise (inductWhens whens) (inductOption otherwise)
  | .window f ⟨partitionBy, orderBy, frame⟩ =>
    window f ⟨partitionBy, orderBy, frame⟩ (induct f) (inductList partitionBy)
      (inductOrdered orderBy)
  | .column r => column r
  | .value v => value v
  | .cast e type => cast e type (induct e)
  | .countAll => countAll
  | .count e => count e (induct e)
  | .countDistinct e => countDistinct e (induct e)

theorem inductList : ∀ (es : List Expr), ∀ x ∈ es, motive x
  | [] => List.forall_mem_nil _
  | e :: es => List.forall_mem_cons.2 ⟨induct e, inductList es⟩

theorem inductWhens : ∀ (whens : List (Expr × Expr)), ∀ w ∈ whens, motive w.1 ∧ motive w.2
  | [] => List.forall_mem_nil _
  | (c, e) :: rest => List.forall_mem_cons.2 ⟨⟨induct c, induct e⟩, inductWhens rest⟩

theorem inductOption : ∀ (o : Option Expr), ∀ e ∈ o, motive e
  | none => by simp
  | some e => by simpa using induct e

theorem inductOrdered : ∀ (terms : List (Ordered Expr)), ∀ t ∈ terms, motive t.target
  | [] => List.forall_mem_nil _
  | ⟨e, _⟩ :: rest => List.forall_mem_cons.2 ⟨induct e, inductOrdered rest⟩

end

end Induction

section Views

variable (f : Expr → Expr) (p : Expr → Bool)

@[simp] lemma mapList_eq (es : List Expr) : mapList f es = es.map (mapNodes f) := by
  induction es with
  | nil => rfl
  | cons e es ih => rw [mapList, ih, List.map_cons]

@[simp] lemma mapWhens_eq (whens : List (Expr × Expr)) :
    mapWhens f whens = whens.map fun w => (w.1.mapNodes f, w.2.mapNodes f) := by
  induction whens with
  | nil => rfl
  | cons w whens ih => rw [mapWhens, ih, List.map_cons]

@[simp] lemma mapOption_eq (o : Option Expr) : mapOption f o = o.map (mapNodes f) := by
  cases o <;> rfl

@[simp] lemma mapOrdered_eq (terms : List (Ordered Expr)) :
    mapOrdered f terms = terms.map fun t => ⟨t.target.mapNodes f, t.direction⟩ := by
  induction terms with
  | nil => rfl
  | cons t terms ih => rw [mapOrdered, ih, List.map_cons]

@[simp] lemma anyList_eq (es : List Expr) : anyList p es = es.any (anyNode p) := by
  induction es with
  | nil => rfl
  | cons e es ih => rw [anyList, ih, List.any_cons]

@[simp] lemma anyWhens_eq (whens : List (Expr × Expr)) :
    anyWhens p whens = whens.any fun w => w.1.anyNode p || w.2.anyNode p := by
  induction whens with
  | nil => rfl
  | cons w whens ih => rw [anyWhens, ih, List.any_cons]

@[simp] lemma anyOption_eq (o : Option Expr) : anyOption p o = o.toList.any (anyNode p) := by
  cases o with
  | none => rfl
  | some e => simp [anyOption]

@[simp] lemma anyOrdered_eq (terms : List (Ordered Expr)) :
    anyOrdered p terms = terms.any fun t => t.target.anyNode p := by
  induction terms with
  | nil => rfl
  | cons t terms ih => rw [anyOrdered, ih, List.any_cons]

attribute [local simp] anyNode

lemma anyNode_isIn_eq_false {e : Expr} {es : List Expr} : (isIn e es).anyNode p = false ↔
    p (.isIn e es) = false ∧ e.anyNode p = false ∧ ∀ x ∈ es, x.anyNode p = false := by
  simp [and_assoc]

lemma anyNode_call_eq_false {name : String} {args : List Expr} :
    (call name args).anyNode p = false ↔
      p (.call name args) = false ∧ ∀ x ∈ args, x.anyNode p = false := by
  simp

lemma anyNode_case_eq_false {whens : List (Expr × Expr)} {otherwise : Option Expr} :
    (case whens otherwise).anyNode p = false ↔ p (.case whens otherwise) = false ∧
      (∀ w ∈ whens, w.1.anyNode p = false ∧ w.2.anyNode p = false) ∧
      ∀ e ∈ otherwise, e.anyNode p = false := by
  simp [and_assoc]

lemma anyNode_window_eq_false {e : Expr} {clause : Over Expr} :
    (window e clause).anyNode p = false ↔ p (.window e clause) = false ∧ e.anyNode p = false ∧
      (∀ x ∈ clause.partitionBy, x.anyNode p = false) ∧
      ∀ t ∈ clause.orderBy, t.target.anyNode p = false := by
  simp [and_assoc]

end Views

/-- Whether an expression is a column and nothing more. -/
def isColumn : Expr → Bool
  | .column _ => true
  | _ => false

lemma isColumn_of_exposes {e : Expr} {name : String} (h : e.exposes name = true) :
    e.isColumn = true := by
  cases e <;> simp_all [isColumn, exposes]

end PipelineSql.Sql.Expr
