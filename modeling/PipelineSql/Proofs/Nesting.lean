import Mathlib.Tactic.Lemma
import PipelineSql.Sql.Select

/-!
# Queries inside queries

A query reads from items: its source and what it joins. The queries nested in it are itself and
those nested in the subqueries among its items.
-/

namespace PipelineSql.Sql

/-- The name under which an item is read. -/
def Source.tableAlias {σ : Type} : Source σ → TableAlias
  | .table _ a => a
  | .subquery _ a => a

namespace Select

/-- What a query reads from: its source, and the subqueries joined to it. -/
def items (q : Select) : List (Source Select) :=
  q.source.toList ++ q.joins.map fun j => .subquery j.select j.tableAlias

/-- The expressions of a query itself, those of its joins included. -/
def exprs (q : Select) : List Expr :=
  q.columns.map Prod.snd ++ [q.condition] ++ q.groupBy ++ q.orderBy.map Ordered.target ++
    q.joins.map Joined.condition

lemma mem_exprs {q : Select} {e : Expr} : e ∈ q.exprs ↔ (∃ c ∈ q.columns, c.2 = e) ∨
    e = q.condition ∨ e ∈ q.groupBy ∨ (∃ t ∈ q.orderBy, t.target = e) ∨
      ∃ j ∈ q.joins, j.condition = e := by
  simp only [exprs, List.mem_append, List.mem_map, List.mem_singleton, or_assoc]

/-- A query is nested in itself and in every query that reads from one it is nested in. -/
inductive Nested : Select → Select → Prop where
  | root (q : Select) : Nested q q
  | inside {p inner q : Select} {a : TableAlias} :
      Nested p inner → .subquery inner a ∈ q.items → Nested p q

/-- A query is nested strictly inside another. -/
def Below (p q : Select) : Prop := ∃ inner a, .subquery inner a ∈ q.items ∧ Nested p inner

lemma nested_iff {p q : Select} : Nested p q ↔ p = q ∨ Below p q := by
  constructor
  · intro h
    cases h with
    | root => exact Or.inl rfl
    | inside hp hmem => exact Or.inr ⟨_, _, hmem, hp⟩
  · rintro (rfl | ⟨inner, a, hmem, hp⟩)
    · exact .root p
    · exact .inside hp hmem

lemma Nested.trans {p q r : Select} (hpq : Nested p q) (hqr : Nested q r) : Nested p r := by
  induction hqr with
  | root => exact hpq
  | inside _ hmem ih => exact .inside ih hmem

lemma Below.congr {p q r : Select} (hitems : r.items = q.items) (h : Below p q) : Below p r := by
  obtain ⟨inner, a, hmem, hp⟩ := h
  exact ⟨inner, a, hitems ▸ hmem, hp⟩

lemma items_congr {q r : Select} (hsource : r.source = q.source) (hjoins : r.joins = q.joins) :
    r.items = q.items := by
  simp only [items, hsource, hjoins]

lemma columnNames_throughSubquery (inner : Select) (a : TableAlias) :
    (throughSubquery inner a).columnNames = inner.columnNames := by
  simp [throughSubquery, reading, columnNames, Function.comp_def]

lemma nested_of_source {inner q : Select} {a : TableAlias}
    (h : q.source = some (.subquery inner a)) : Nested inner q :=
  .inside (a := a) (.root inner) (by simp [items, h])

/-- A property of a query and of all queries nested in it. -/
def Everywhere (P : Select → Prop) (q : Select) : Prop := ∀ p, Nested p q → P p

lemma Everywhere.root {P : Select → Prop} {q : Select} (h : q.Everywhere P) : P q := h q (.root q)

/-- A property of a query and of all its subqueries. -/
lemma Everywhere.of_items {P : Select → Prop} {q : Select} (hq : P q)
    (h : ∀ inner a, .subquery inner a ∈ q.items → inner.Everywhere P) : q.Everywhere P := by
  intro p hp
  rcases nested_iff.1 hp with rfl | ⟨inner, a, hmem, hin⟩
  · exact hq
  · exact h inner a hmem p hin

/-- An edit that leaves the items of a query alone. -/
lemma Everywhere.edit {P : Select → Prop} {q r : Select} (h : q.Everywhere P)
    (hitems : r.items = q.items) (hr : P r) : r.Everywhere P := by
  refine .of_items hr ?_
  intro inner a hmem p hp
  exact h p (.inside hp (hitems ▸ hmem))

mutual

/-- All table aliases of a statement, those of nested queries included. -/
def aliases : Select → List TableAlias
  | ⟨_, _, source, joins, _, _, _, _, _⟩ => sourceAliases source ++ joinAliases joins

def sourceAliases : Option (Source Select) → List TableAlias
  | none => []
  | some (.table _ a) => [a]
  | some (.subquery q a) => a :: q.aliases

def joinAliases : List (Joined Select) → List TableAlias
  | [] => []
  | ⟨_, q, a, _⟩ :: rest => a :: q.aliases ++ joinAliases rest

end

/-- The aliases that an item brings into a statement. -/
def itemAliases : Source Select → List TableAlias
  | .table _ a => [a]
  | .subquery q a => a :: q.aliases

lemma aliases_eq (q : Select) : q.aliases = q.items.flatMap itemAliases := by
  obtain ⟨_, _, source, joins, _, _, _, _, _⟩ := q
  have hsource : sourceAliases source = source.toList.flatMap itemAliases := by
    cases source with
    | none => rfl
    | some i => cases i <;> simp [sourceAliases, itemAliases]
  have hjoins : ∀ joins : List (Joined Select), joinAliases joins =
      (joins.map fun j => Source.subquery j.select j.tableAlias).flatMap itemAliases := by
    intro joins
    induction joins with
    | nil => rfl
    | cons j rest ih => simp [joinAliases, itemAliases, ih]
  simp only [aliases, items, List.flatMap_append, hsource, hjoins]

lemma mem_aliases {q : Select} {b : TableAlias} :
    b ∈ q.aliases ↔ ∃ i ∈ q.items, b = i.tableAlias ∨ ∃ inner a, i = .subquery inner a ∧
      b ∈ inner.aliases := by
  rw [aliases_eq, List.mem_flatMap]
  refine exists_congr fun i => and_congr_right fun _ => ?_
  cases i with
  | table t a => simp [itemAliases, Source.tableAlias]
  | subquery inner a => simp [itemAliases, Source.tableAlias]

/-- The aliases of a nested query are aliases of the statement. -/
lemma Nested.mem_aliases {p q : Select} (h : Nested p q) {b : TableAlias} (hb : b ∈ p.aliases) :
    b ∈ q.aliases := by
  induction h with
  | root => exact hb
  | inside _ hmem ih => exact Select.mem_aliases.2 ⟨_, hmem, Or.inr ⟨_, _, rfl, ih⟩⟩

end Select

end PipelineSql.Sql
