import Mathlib.Logic.Relation
import PipelineSql.Proofs.ColumnReads
import PipelineSql.Proofs.ExpressionTrees
import PipelineSql.Proofs.Substitution

/-!
# Rewriting from the leaves up

One pass over a tree can leave behind what it is meant to remove: a node that is rewritten may make
a redex of the node above it, and a part that is not visited keeps what it had. Shaping a column
expression leaves no redex anywhere in it, and replacing an alias in an SQL expression leaves no
reference through it.
-/

namespace PipelineSql

/-- A tree stands somewhere in another one. -/
def Subterm {α : Type} (parts : α → List α) : α → α → Prop :=
  Relation.ReflTransGen fun x y => x ∈ parts y

lemma subterm_iff {α : Type} {parts : α → List α} {x e : α} :
    Subterm parts x e ↔ x = e ∨ ∃ y ∈ parts e, Subterm parts x y := by
  unfold Subterm
  rw [Relation.ReflTransGen.cases_tail_iff]
  constructor
  · rintro (rfl | ⟨y, hx, hy⟩)
    · exact Or.inl rfl
    · exact Or.inr ⟨y, hy, hx⟩
  · rintro (rfl | ⟨y, hy, hx⟩)
    · exact Or.inl rfl
    · exact Or.inr ⟨y, hx, hy⟩

namespace ColumnExpr

/-- The parts of a column expression. -/
def parts : ColumnExpr → List ColumnExpr
  | .reference => []
  | .attr parent _ => [parent]
  | .call _ args keywords => args ++ keywords.map Prod.snd
  | .index parent key => [parent, key]
  | .slice start stop => start.toList ++ stop.toList
  | .literal _ => []

/-- What shaping removes: a subscript of the table by a text, and an accessor of anything else than
the table. -/
inductive IsRedex : ColumnExpr → Prop where
  | subscript {name : String} : IsRedex (.index .reference (.literal (.str name)))
  | accessor {parent : ColumnExpr} {name : String} : parent ≠ .reference →
      name = "str" ∨ name = "dt" → IsRedex (.attr parent name)

/-- Shaping finds nothing to remove in an expression. -/
def Normal (e : ColumnExpr) : Prop := ∀ x, Subterm parts x e → ¬x.IsRedex

variable {e : ColumnExpr}

lemma normal_iff : e.Normal ↔ ¬e.IsRedex ∧ ∀ p ∈ e.parts, p.Normal := by
  constructor
  · intro h
    refine ⟨h e (subterm_iff.2 (Or.inl rfl)), ?_⟩
    intro p hp x hx
    exact h x (subterm_iff.2 (Or.inr ⟨p, hp, hx⟩))
  · rintro ⟨he, hparts⟩ x hx
    rcases subterm_iff.1 hx with rfl | ⟨p, hp, hx⟩
    · exact he
    · exact hparts p hp x hx

lemma normal_column (name : String) : (column name).Normal := by
  refine normal_iff.2 ⟨?_, ?_⟩
  · intro h
    cases h with
    | accessor hne _ => exact hne rfl
  · intro p hp
    rw [List.mem_singleton.1 hp]
    exact normal_iff.2 ⟨nofun, by simp [parts]⟩

lemma shapeNode_attr_of_ne {parent : ColumnExpr} (h : parent ≠ .reference) (name : String) :
    shapeNode (.attr parent name) =
      if name = "str" ∨ name = "dt" then parent else .attr parent name := by
  cases parent with
  | reference => exact absurd rfl h
  | attr | call | index | slice | literal => rfl

/-- A node that is no redex stays as it is. -/
lemma shapeNode_eq_self (h : ¬e.IsRedex) : e.shapeNode = e := by
  cases e with
  | attr parent name =>
    by_cases hparent : parent = .reference
    · rw [hparent]
      rfl
    · rw [shapeNode_attr_of_ne hparent, if_neg fun hname => h (.accessor hparent hname)]
  | index parent key =>
    unfold shapeNode
    split
    · rename_i he
      cases he
    · rename_i he
      cases he
    · rename_i he
      cases he
      exact absurd .subscript h
    · rfl
  | reference | call | slice | literal => rfl

/-- A redex gives way to something that shaping leaves alone, when it leaves its parts alone. -/
lemma normal_shapeNode (h : ∀ p ∈ e.parts, p.Normal) : e.shapeNode.Normal := by
  by_cases hredex : e.IsRedex
  · cases hredex with
    | subscript => exact normal_column _
    | accessor hparent hname =>
      rw [shapeNode_attr_of_ne hparent, if_pos hname]
      exact h _ (List.mem_singleton.2 rfl)
  · rw [shapeNode_eq_self hredex]
    exact normal_iff.2 ⟨hredex, h⟩

lemma normal_shape (e : ColumnExpr) : e.shape.Normal := by
  unfold shape
  induction e using induct with
  | reference | literal v => exact normal_shapeNode (by simp [parts])
  | attr parent name hparent => exact normal_shapeNode (by simpa [parts] using hparent)
  | call operation args keywords hargs hkeywords =>
    refine normal_shapeNode ?_
    simp only [parts, mapArgs_eq, mapKeywords_eq, List.map_map, List.forall_mem_append,
      List.forall_mem_map]
    exact ⟨hargs, hkeywords⟩
  | index parent key hparent hkey =>
    exact normal_shapeNode (by simpa [parts] using ⟨hparent, hkey⟩)
  | slice start stop hstart hstop =>
    refine normal_shapeNode ?_
    simp only [parts, mapBound_eq, Option.toList_map, List.forall_mem_append, List.forall_mem_map,
      Option.mem_toList]
    exact ⟨hstart, hstop⟩

lemma Normal.shape_eq_self (h : e.Normal) : e.shape = e := by
  unfold shape
  induction e using induct with
  | reference | literal v => rfl
  | attr parent name hparent =>
    obtain ⟨hredex, hparts⟩ := normal_iff.1 h
    rw [mapNodes, hparent (hparts parent (by simp [parts])), shapeNode_eq_self hredex]
  | call operation args keywords hargs hkeywords =>
    obtain ⟨hredex, hparts⟩ := normal_iff.1 h
    simp only [parts, List.forall_mem_append, List.forall_mem_map] at hparts
    have ha : args.map (mapNodes shapeNode) = args :=
      (List.map_congr_left fun a ha => hargs a ha (hparts.1 a ha)).trans (List.map_id args)
    have hk : keywords.map (fun k => (k.1, k.2.mapNodes shapeNode)) = keywords := by
      refine (List.map_congr_left fun k hk => ?_).trans (List.map_id keywords)
      exact Prod.ext rfl (hkeywords k hk (hparts.2 k hk))
    rw [mapNodes, mapArgs_eq, mapKeywords_eq, ha, hk, shapeNode_eq_self hredex]
  | index parent key hparent hkey =>
    obtain ⟨hredex, hparts⟩ := normal_iff.1 h
    rw [mapNodes, hparent (hparts parent (by simp [parts])), hkey (hparts key (by simp [parts])),
      shapeNode_eq_self hredex]
  | slice start stop hstart hstop =>
    obtain ⟨hredex, hparts⟩ := normal_iff.1 h
    simp only [parts, List.forall_mem_append, Option.mem_toList] at hparts
    have hb : start.map (mapNodes shapeNode) = start :=
      (Option.map_congr fun b hb => hstart b hb (hparts.1 b hb)).trans Option.map_id'
    have he : stop.map (mapNodes shapeNode) = stop :=
      (Option.map_congr fun b hb => hstop b hb (hparts.2 b hb)).trans Option.map_id'
    rw [mapNodes, mapBound_eq, mapBound_eq, hb, he, shapeNode_eq_self hredex]

section Reads

lemma append_subset_append {l l' r r' : List String} (hl : l ⊆ l') (hr : r ⊆ r') :
    l ++ r ⊆ l' ++ r' :=
  List.append_subset.2
    ⟨List.subset_append_of_subset_left _ hl, List.subset_append_of_subset_right _ hr⟩

lemma flatMap_subset_flatMap {α : Type} {l : List α} {f g : α → List String}
    (h : ∀ a ∈ l, f a ⊆ g a) : l.flatMap f ⊆ l.flatMap g := by
  intro n hn
  obtain ⟨a, ha, hn⟩ := List.mem_flatMap.1 hn
  exact List.mem_flatMap.2 ⟨a, ha, h a ha hn⟩

lemma reads_shapeNode (e : ColumnExpr) : e.shapeNode.reads = e.reads := by
  by_cases hredex : e.IsRedex
  · cases hredex with
    | subscript => rfl
    | accessor hparent hname =>
      rw [shapeNode_attr_of_ne hparent, if_pos hname, reads_attr_of_ne hparent]
  · rw [shapeNode_eq_self hredex]

lemma reads_index_of_not_redex {parent key : ColumnExpr} (h : ¬(index parent key).IsRedex) :
    (index parent key).reads = parent.reads ++ key.reads := by
  refine reads_index_of_ne ?_
  rintro rfl name rfl
  exact h .subscript

/-- A subscript reads what its parts read, and a column more when it names one by a text. -/
lemma reads_append_subset_index (parent key : ColumnExpr) :
    parent.reads ++ key.reads ⊆ (index parent key).reads := by
  by_cases hredex : (index parent key).IsRedex
  · cases hredex
    exact List.nil_subset _
  · rw [reads_index_of_not_redex hredex]
    exact List.Subset.refl _

/-- Nothing but the table is shaped into the table. -/
lemma eq_reference_of_shape (h : e.shape = .reference) : e = .reference := by
  unfold shape at h
  induction e using induct with
  | reference => rfl
  | attr parent name hparent =>
    rw [mapNodes] at h
    by_cases hshaped : parent.mapNodes shapeNode = .reference
    · rw [hshaped] at h
      cases h
    · rw [shapeNode_attr_of_ne hshaped] at h
      split at h
      · exact absurd h hshaped
      · cases h
  | index parent key =>
    rw [mapNodes] at h
    unfold shapeNode at h
    split at h <;> simp_all
  | call | slice | literal => cases h

lemma reads_subset_shape (e : ColumnExpr) : e.reads ⊆ e.shape.reads := by
  unfold shape
  induction e using induct with
  | reference | literal v => exact List.Subset.refl _
  | attr parent name hparent =>
    rw [mapNodes, reads_shapeNode]
    by_cases hreference : parent = .reference
    · rw [hreference]
      exact List.Subset.refl _
    · have hshaped : parent.mapNodes shapeNode ≠ .reference := fun h =>
        hreference (eq_reference_of_shape h)
      rwa [reads_attr_of_ne hreference, reads_attr_of_ne hshaped]
  | call operation args keywords hargs hkeywords =>
    rw [mapNodes, reads_shapeNode]
    simp only [reads, mapArgs_eq, mapKeywords_eq, readsOfArgs_eq, readsOfKeywords_eq,
      List.flatMap_map]
    exact append_subset_append (flatMap_subset_flatMap hargs) (flatMap_subset_flatMap hkeywords)
  | index parent key hparent hkey =>
    rw [mapNodes, reads_shapeNode]
    by_cases hredex : (index parent key).IsRedex
    · cases hredex
      exact List.Subset.refl _
    · rw [reads_index_of_not_redex hredex]
      exact List.Subset.trans (append_subset_append hparent hkey) (reads_append_subset_index _ _)
  | slice start stop hstart hstop =>
    rw [mapNodes, reads_shapeNode]
    simp only [reads, mapBound_eq, readsOfBound_eq, Option.toList_map, List.flatMap_map]
    refine append_subset_append (flatMap_subset_flatMap ?_) (flatMap_subset_flatMap ?_)
    · exact fun e he => hstart e (Option.mem_toList.1 he)
    · exact fun e he => hstop e (Option.mem_toList.1 he)

end Reads

end ColumnExpr

/-- Shaping gives a normal form in one pass: it leaves no subscript of the table by a text and no
accessor of anything else than the table, loses no column that is read, and changes nothing where
there is nothing to remove. -/
theorem shape_normalizes (e : ColumnExpr) : e.shape.Normal ∧ e.shape.shape = e.shape ∧
    e.reads ⊆ e.shape.reads ∧ (e.shape = e ↔ e.Normal) := by
  have hnormal := e.normal_shape
  refine ⟨hnormal, hnormal.shape_eq_self, e.reads_subset_shape, ?_, ColumnExpr.Normal.shape_eq_self⟩
  intro h
  rwa [h] at hnormal

-- Each rule makes a redex for the other: the accessor of a text hides a subscript, and the column
-- that the subscript becomes has an accessor.
example : ColumnExpr.shape
    (.attr (.index .reference (.attr (.literal (.str "x")) "str")) "dt") = .column "x" := rfl

open Sql (Expr ColumnRef TableAlias Over Ordered)

namespace Sql.ColumnRef

variable {old new : TableAlias} {r : ColumnRef}

lemma replaceAlias_labelled (a : TableAlias) (label : String) :
    (labelled (.aliased a) label).replaceAlias old new =
      .labelled (.aliased (if a = old then new else a)) label := rfl

/-- A reference changes only when it goes through the alias that is replaced. -/
lemma replaceAlias_eq_self (h : ∀ label, r ≠ .labelled (.aliased old) label) :
    r.replaceAlias old new = r := by
  obtain ⟨table, name⟩ | ⟨_ | a, label⟩ := r
  · rfl
  · rfl
  · have ha : a ≠ old := by
      rintro rfl
      exact h label rfl
    rw [replaceAlias_labelled, if_neg ha]

/-- A reference through one alias goes through another one instead, and any other stays. -/
inductive Redirected (old new : TableAlias) : ColumnRef → ColumnRef → Prop where
  | through {label : String} :
      Redirected old new (.labelled (.aliased old) label) (.labelled (.aliased new) label)
  | other {r : ColumnRef} : (∀ label, r ≠ .labelled (.aliased old) label) → Redirected old new r r

lemma redirected_replaceAlias (old new : TableAlias) (r : ColumnRef) :
    Redirected old new r (r.replaceAlias old new) := by
  by_cases h : ∃ label, r = .labelled (.aliased old) label
  · obtain ⟨label, rfl⟩ := h
    rw [replaceAlias_labelled, if_pos rfl]
    exact .through
  · rw [replaceAlias_eq_self (not_exists.1 h)]
    exact .other (not_exists.1 h)

lemma Redirected.ne {r' : ColumnRef} (h : Redirected old new r r') (hne : old ≠ new)
    (label : String) : r' ≠ .labelled (.aliased old) label := by
  cases h with
  | through => simp [hne.symm]
  | other h => exact h label

lemma replaceAlias_back (h : ∀ label, r ≠ .labelled (.aliased new) label) :
    (r.replaceAlias old new).replaceAlias new old = r := by
  by_cases hold : ∃ name, r = .labelled (.aliased old) name
  · obtain ⟨name, rfl⟩ := hold
    rw [replaceAlias_labelled, if_pos rfl, replaceAlias_labelled, if_pos rfl]
  · rw [replaceAlias_eq_self (not_exists.1 hold), replaceAlias_eq_self h]

end Sql.ColumnRef

namespace Sql.Expr

/-- Two expressions are alike but for their columns, which are related. -/
inductive Alike (R : ColumnRef → ColumnRef → Prop) : Expr → Expr → Prop where
  | and {l l' r r' : Expr} : Alike R l l' → Alike R r r' → Alike R (.and l r) (.and l' r')
  | or {l l' r r' : Expr} : Alike R l l' → Alike R r r' → Alike R (.or l r) (.or l' r')
  | not {e e' : Expr} : Alike R e e' → Alike R (.not e) (.not e')
  | binary {l l' r r' : Expr} {operator : String} : Alike R l l' → Alike R r r' →
      Alike R (.binary l operator r) (.binary l' operator r')
  | isIn {e e' : Expr} {es es' : List Expr} : Alike R e e' → List.Forall₂ (Alike R) es es' →
      Alike R (.isIn e es) (.isIn e' es')
  | isNull {e e' : Expr} : Alike R e e' → Alike R (.isNull e) (.isNull e')
  | isNotNull {e e' : Expr} : Alike R e e' → Alike R (.isNotNull e) (.isNotNull e')
  | negate {e e' : Expr} : Alike R e e' → Alike R (.negate e) (.negate e')
  | call {f : String} {args args' : List Expr} : List.Forall₂ (Alike R) args args' →
      Alike R (.call f args) (.call f args')
  | case {whens whens' : List (Expr × Expr)} {otherwise otherwise' : Option Expr} :
      List.Forall₂ (Alike R) (whens.map Prod.fst) (whens'.map Prod.fst) →
      List.Forall₂ (Alike R) (whens.map Prod.snd) (whens'.map Prod.snd) →
      Option.Rel (Alike R) otherwise otherwise' →
      Alike R (.case whens otherwise) (.case whens' otherwise')
  | window {f f' : Expr} {clause clause' : Over Expr} : Alike R f f' →
      List.Forall₂ (Alike R) clause.partitionBy clause'.partitionBy →
      List.Forall₂ (Alike R) (clause.orderBy.map Ordered.target)
        (clause'.orderBy.map Ordered.target) →
      clause.orderBy.map Ordered.direction = clause'.orderBy.map Ordered.direction →
      clause.frame = clause'.frame → Alike R (.window f clause) (.window f' clause')
  | column {r r' : ColumnRef} : R r r' → Alike R (.column r) (.column r')
  | value {v : Literal} : Alike R (.value v) (.value v)
  | cast {e e' : Expr} {type : String} : Alike R e e' → Alike R (.cast e type) (.cast e' type)
  | countAll : Alike R .countAll .countAll
  | count {e e' : Expr} : Alike R e e' → Alike R (.count e) (.count e')
  | countDistinct {e e' : Expr} : Alike R e e' → Alike R (.countDistinct e) (.countDistinct e')

/-- What an expression has when it or a part of it has it, it has by a subterm. -/
lemma iff_exists_subterm {P Q : Expr → Prop} (hQ : ∀ e, Q e ↔ P e ∨ ∃ x ∈ e.parts, Q x)
    (e : Expr) : Q e ↔ ∃ x, Subterm parts x e ∧ P x := by
  induction e using induct_parts with
  | h e ih =>
    rw [hQ]
    constructor
    · rintro (h | ⟨y, hy, h⟩)
      · exact ⟨e, subterm_iff.2 (Or.inl rfl), h⟩
      · obtain ⟨x, hx, h⟩ := (ih y hy).1 h
        exact ⟨x, subterm_iff.2 (Or.inr ⟨y, hy, hx⟩), h⟩
    · rintro ⟨x, hx, h⟩
      rcases subterm_iff.1 hx with rfl | ⟨y, hy, hx⟩
      · exact Or.inl h
      · exact Or.inr ⟨y, hy, (ih y hy).2 ⟨x, hx, h⟩⟩

lemma mem_refs_parts (r : ColumnRef) (e : Expr) :
    r ∈ e.refs ↔ e = .column r ∨ ∃ x ∈ e.parts, r ∈ x.refs := by
  cases e with
  | case whens otherwise =>
    simp only [refs_case, parts, List.mem_append, List.mem_flatMap, List.mem_map, or_and_right,
      exists_or, reduceCtorEq, false_or, and_or_left, exists_exists_and_eq_and]
  | window f clause =>
    obtain ⟨partitionBy, orderBy, frame⟩ := clause
    simp only [refs_window, parts, List.mem_append, List.mem_cons, List.mem_flatMap, List.mem_map,
      or_and_right, exists_or, reduceCtorEq, false_or, exists_eq_left, exists_exists_and_eq_and,
      or_assoc]
  | _ => simp [refs, parts, eq_comm]

lemma anyNode_parts (p : Expr → Bool) (e : Expr) :
    e.anyNode p = true ↔ p e = true ∨ ∃ x ∈ e.parts, x.anyNode p = true := by
  cases e with
  | case whens otherwise =>
    simp only [anyNode, parts, anyWhens_eq, anyOption_eq, Bool.or_eq_true, List.any_eq_true,
      List.mem_append, List.mem_map, or_and_right, exists_or, and_or_left, or_assoc,
      exists_exists_and_eq_and]
  | window f clause =>
    obtain ⟨partitionBy, orderBy, frame⟩ := clause
    simp only [anyNode, parts, anyList_eq, anyOrdered_eq, Bool.or_eq_true, List.any_eq_true,
      List.mem_append, List.mem_cons, List.mem_map, or_and_right, exists_or, exists_eq_left,
      or_assoc, exists_exists_and_eq_and]
  | _ => simp [anyNode, parts, or_assoc]

lemma alike_replaceAlias (old new : TableAlias) (e : Expr) :
    Alike (ColumnRef.Redirected old new) e (e.replaceAlias old new) := by
  rw [replaceAlias_eq_bindColumns]
  induction e using induct with
  | and l r hl hr => exact .and hl hr
  | or l r hl hr => exact .or hl hr
  | not e he => exact .not he
  | binary l operator r hl hr => exact .binary hl hr
  | isIn e es he hes =>
    rw [bindColumns_isIn]
    exact .isIn he (List.forall₂_map_right_iff.2 (List.forall₂_same.2 hes))
  | isNull e he => exact .isNull he
  | isNotNull e he => exact .isNotNull he
  | negate e he => exact .negate he
  | call f args hargs =>
    rw [bindColumns_call]
    exact .call (List.forall₂_map_right_iff.2 (List.forall₂_same.2 hargs))
  | case whens otherwise hwhens hotherwise =>
    rw [bindColumns_case]
    refine .case ?_ ?_ ?_
    · rw [List.map_map, List.forall₂_map_left_iff, List.forall₂_map_right_iff, List.forall₂_same]
      exact fun w hw => (hwhens w hw).1
    · rw [List.map_map, List.forall₂_map_left_iff, List.forall₂_map_right_iff, List.forall₂_same]
      exact fun w hw => (hwhens w hw).2
    · cases otherwise with
      | none => exact .none
      | some x => exact .some (hotherwise x rfl)
  | window f clause hf hpartition horder =>
    rw [bindColumns_window]
    refine .window hf ?_ ?_ ?_ rfl
    · exact List.forall₂_map_right_iff.2 (List.forall₂_same.2 hpartition)
    · rw [List.map_map, List.forall₂_map_left_iff, List.forall₂_map_right_iff, List.forall₂_same]
      exact horder
    · rw [List.map_map]
      rfl
  | column r => exact .column (r.redirected_replaceAlias old new)
  | value v => exact .value
  | cast e type he => exact .cast he
  | countAll => exact .countAll
  | count e he => exact .count he
  | countDistinct e he => exact .countDistinct he

section Replacement

variable (old new : TableAlias)

lemma parts_replaceAlias (e : Expr) :
    (e.replaceAlias old new).parts = e.parts.map (replaceAlias old new) := by
  have hbind : replaceAlias old new = bindColumns fun r => .column (r.replaceAlias old new) :=
    funext (replaceAlias_eq_bindColumns old new)
  rw [hbind]
  cases e with
  | _ => simp [parts, Function.comp_def, Option.toList_map]

lemma isWindow_replaceAlias (e : Expr) : (e.replaceAlias old new).isWindow = e.isWindow := by
  rw [replaceAlias_eq_bindColumns]
  cases e with
  | _ => simp [isWindow]

lemma containsWindow_iff (e : Expr) :
    e.containsWindow = true ↔ ∃ f clause, Subterm parts (.window f clause) e := by
  rw [containsWindow, iff_exists_subterm (anyNode_parts isWindow)]
  constructor
  · rintro ⟨x, hx, hwindow⟩
    cases x with
    | window f clause => exact ⟨f, clause, hx⟩
    | _ => cases hwindow
  · rintro ⟨f, clause, hx⟩
    exact ⟨_, hx, rfl⟩

/-- Replacing an alias takes no window away and brings none in. -/
lemma containsWindow_replaceAlias (e : Expr) :
    (e.replaceAlias old new).containsWindow = e.containsWindow := by
  rw [Bool.eq_iff_iff]
  induction e using induct_parts with
  | h e ih =>
    unfold containsWindow at ih ⊢
    rw [anyNode_parts, anyNode_parts isWindow e, isWindow_replaceAlias, parts_replaceAlias]
    simp only [List.mem_map, exists_exists_and_eq_and]
    exact or_congr_right (exists_congr fun x => and_congr_right fun hx => ih x hx)

lemma mem_refs_iff {r : ColumnRef} {e : Expr} : r ∈ e.refs ↔ Subterm parts (.column r) e := by
  rw [iff_exists_subterm (mem_refs_parts r)]
  simp

end Replacement

/-- Replacing an alias reaches every reference through it and changes nothing else. Done again it
changes nothing at all, and it can be undone when nothing went through the new alias before. Windows
are found wherever they stand, and replacing an alias leaves them there. -/
theorem alias_replaced_throughout {old new : TableAlias} (hne : old ≠ new) (e : Expr) :
    (∀ label, ¬Subterm parts (.column (.labelled (.aliased old) label)) (e.replaceAlias old new)) ∧
    Alike (ColumnRef.Redirected old new) e (e.replaceAlias old new) ∧
    (e.replaceAlias old new).replaceAlias old new = e.replaceAlias old new ∧
    ((∀ label, ¬Subterm parts (.column (.labelled (.aliased new) label)) e) →
      (e.replaceAlias old new).replaceAlias new old = e) ∧
    (∀ x, containsWindow x = true ↔ ∃ f clause, Subterm parts (.window f clause) x) ∧
    (e.replaceAlias old new).containsWindow = e.containsWindow := by
  have hnone : ∀ r ∈ (e.replaceAlias old new).refs, ∀ label,
      r ≠ .labelled (.aliased old) label := by
    intro r hr label
    rw [refs_replaceAlias, List.mem_map] at hr
    obtain ⟨s, _, rfl⟩ := hr
    exact (s.redirected_replaceAlias old new).ne hne label
  refine ⟨?_, alike_replaceAlias old new e, ?_, ?_, containsWindow_iff,
    containsWindow_replaceAlias old new e⟩
  · intro label h
    exact hnone _ (mem_refs_iff.2 h) label rfl
  · rw [replaceAlias_eq_bindColumns old new (e.replaceAlias old new)]
    refine bindColumns_eq_self fun r hr => ?_
    rw [ColumnRef.replaceAlias_eq_self (hnone r hr)]
  · intro hnew
    rw [replaceAlias_eq_bindColumns, replaceAlias_eq_bindColumns, bindColumns_bindColumns]
    refine bindColumns_eq_self fun r hr => ?_
    have hr : ∀ label, r ≠ .labelled (.aliased new) label := by
      rintro label rfl
      exact hnew label (mem_refs_iff.1 hr)
    rw [bindColumns_column, ColumnRef.replaceAlias_back hr]

/-- The total of a group that is counted, or else a number as a text, read through an alias. -/
def totalThrough (a : TableAlias) : Expr :=
  .case [(.isIn (.labelled a "g") [.count (.labelled a "x"), .labelled ⟨"lhs", 3⟩ "g"],
      .window (.call "sum" [.labelled a "x"])
        { partitionBy := [.labelled a "g"], orderBy := [⟨.negate (.labelled a "k"), .desc⟩] })]
    (some (.cast (.labelled a "x") "TEXT"))

/-- The total is moved from the subquery to the stage with the windows and back again. -/
theorem totalThrough_replaced :
    (totalThrough ⟨"subquery", 1⟩).replaceAlias ⟨"subquery", 1⟩ ⟨"windows", 2⟩ =
      totalThrough ⟨"windows", 2⟩ ∧
    (∀ label, ¬Subterm parts (.column (.labelled (.aliased ⟨"subquery", 1⟩) label))
      (totalThrough ⟨"windows", 2⟩)) ∧
    (totalThrough ⟨"windows", 2⟩).replaceAlias ⟨"windows", 2⟩ ⟨"subquery", 1⟩ =
      totalThrough ⟨"subquery", 1⟩ ∧
    (∃ f clause, Subterm parts (.window f clause) (totalThrough ⟨"windows", 2⟩)) := by
  have hmoved : (totalThrough ⟨"subquery", 1⟩).replaceAlias ⟨"subquery", 1⟩ ⟨"windows", 2⟩ =
      totalThrough ⟨"windows", 2⟩ := rfl
  have hnew : ∀ label, ¬Subterm parts (.column (.labelled (.aliased ⟨"windows", 2⟩) label))
      (totalThrough ⟨"subquery", 1⟩) := by
    intro label h
    simpa [totalThrough, refs, labelled] using mem_refs_iff.2 h
  obtain ⟨hnone, _, _, hback, hwindow, _⟩ :=
    alias_replaced_throughout (by decide : (⟨"subquery", 1⟩ : TableAlias) ≠ ⟨"windows", 2⟩)
      (totalThrough ⟨"subquery", 1⟩)
  rw [hmoved] at hnone hback
  exact ⟨hmoved, hnone, hback hnew, (hwindow _).1 rfl⟩

end Sql.Expr

end PipelineSql
