import PipelineSql.Proofs.Splitting

/-!
# Names and texts stay inside their quotes

Whatever the names and texts of a query contain, a reader of the statement finds exactly these
names and texts between its quotes, and the same words around them.
-/

namespace PipelineSql

open Sql

namespace Sql

section Spacing

lemma columnFragments_spaced (simpleNames : Bool) {c : String × Expr} (h : c.2.InVocabulary) :
    Spaced (columnFragments simpleNames c) := by
  unfold columnFragments
  split
  · exact expr_spaced h
  · exact spaced_append_plain.2 ⟨expr_spaced h, by decide, spaced_singleton (by simp)⟩

lemma whereFragments_continues {condition : Expr} (h : condition.InVocabulary) :
    Continues (whereFragments condition) := by
  unfold whereFragments
  split
  · exact continues_nil
  · exact continues_plain (by decide) (expr_spaced h)

lemma clause_continues {keyword : String} (hkeyword : isPlainText keyword = true)
    {items : List (List Fragment)} (h : ∀ item ∈ items, Spaced item) :
    Continues (clause keyword items).flatten := by
  unfold clause
  split
  · exact continues_nil
  · simpa using continues_plain hkeyword (spaced_separated (by decide) h)

lemma limitFragments_continues {keyword : String} (hkeyword : isPlainText keyword = true)
    (n : Option UInt32) : Continues (limitFragments keyword n) := by
  cases n with
  | none => exact continues_nil
  | some n =>
    have hnumber : isPlainText (toString n.toNat) = true := by
      have hsigned : isPlainText (Literal.signText false ++ toString n.toNat) = true :=
        numeral_plain (isNumeral_nat n.toNat)
      simpa [Literal.signText] using hsigned
    exact continues_plain hkeyword (spaced_plain.2 ⟨hnumber, spaced_nil⟩)

/-- Every expression of a query and of those nested in it has known words. -/
abbrev Select.InVocabulary (q : Select) : Prop := q.Everywhere (Inherited.Holds Expr.InVocabulary)

mutual

/-- The fragments of a query keep its quoted parts apart. -/
theorem select_spaced (simpleNames : Bool) :
    ∀ q : Select, q.InVocabulary → Spaced (q.fragments simpleNames)
  | ⟨distinct, columns, source, joins, condition, groupBy, orderBy, limit, offset⟩, h => by
    have hroot := h.root
    have hcolumns : Spaced (separated ", " (columns.map (columnFragments simpleNames))) := by
      apply spaced_separated (by decide)
      intro item hitem
      obtain ⟨c, hc, rfl⟩ := List.mem_map.1 hitem
      exact columnFragments_spaced simpleNames (hroot.column hc)
    have hsource : Continues (sourceFragments simpleNames source) := by
      apply source_continues simpleNames source
      rintro q a rfl p hp
      exact h p (.inside hp (a := a) (by simp [Select.items]))
    have hjoins : Continues (joinFragments simpleNames joins) := by
      apply joins_continue simpleNames joins
      intro j hj
      refine ⟨fun p hp => h p (.inside hp (a := j.tableAlias) ?_), hroot.joins j hj⟩
      exact List.mem_append_right _ (List.mem_map.2 ⟨j, hj, rfl⟩)
    have hgroup : Continues (clause " GROUP BY " (listFragments groupBy)).flatten :=
      clause_continues (by decide) (list_spaced fun e he => expr_spaced (hroot.group e he))
    have horder : Continues (clause " ORDER BY " (orderFragments orderBy)).flatten :=
      clause_continues (by decide) (ordered_spaced fun t ht => expr_spaced (hroot.order t ht))
    have hselect : Spaced (.plain "SELECT " :: (if distinct then [.plain "DISTINCT "] else []) ++
        separated ", " (columns.map (columnFragments simpleNames))) := by
      cases distinct <;> simp +decide [hcolumns]
    exact ((((((hselect.append hsource).append hjoins).append
      (whereFragments_continues hroot.condition)).append hgroup).append horder).append
        (limitFragments_continues (by decide) limit)).append
          (limitFragments_continues (by decide) offset)

theorem source_continues (simpleNames : Bool) : ∀ source : Option (Source Select),
    (∀ q a, source = some (.subquery q a) → q.InVocabulary) →
      Continues (sourceFragments simpleNames source)
  | none, _ => continues_nil
  | some (.table table a), _ => by
    refine continues_plain (by decide) (spaced_append_plain.2 ⟨table_spaced table, by decide, ?_⟩)
    exact spaced_singleton (by simp [TableAlias.fragment])
  | some (.subquery q a), h => by
    have hq := select_spaced simpleNames q (h q a rfl)
    refine continues_plain (by decide) (spaced_append_plain.2 ⟨hq, by decide, ?_⟩)
    exact spaced_singleton (by simp [TableAlias.fragment])

theorem joins_continue (simpleNames : Bool) : ∀ joins : List (Joined Select),
    (∀ j ∈ joins, j.select.InVocabulary ∧ j.condition.InVocabulary) →
      Continues (joinFragments simpleNames joins)
  | [], _ => continues_nil
  | ⟨type, q, a, condition⟩ :: rest, h => by
    have hq := select_spaced simpleNames q (h _ List.mem_cons_self).1
    have hrest := joins_continue simpleNames rest fun j hj => h j (List.mem_cons_of_mem _ hj)
    have htype : isPlainText type.keyword = true := by
      cases type <;> decide
    have halias : Spaced (a.fragment :: .plain " ON " :: condition.fragments) := by
      refine Spaced.append (spaced_singleton (by simp [TableAlias.fragment])) ?_
      exact continues_plain (by decide) (expr_spaced (h _ List.mem_cons_self).2)
    have hjoin : Spaced (.plain "(" :: q.fragments simpleNames ++
        .plain ") AS " :: a.fragment :: .plain " ON " :: condition.fragments) := by
      simp only [List.cons_append, spaced_plain, spaced_append_plain]
      exact ⟨by decide, hq, by decide, halias⟩
    exact continues_plain htype (hjoin.append hrest)

end

end Spacing

section Outlines

variable (options : RenderOptions) (style : ParamStyle)

/-- What a split has outside its quotes, and which quotes these are. -/
def Split.outline (s : Split) : List Char × List (Char × List Char) :=
  (s.text, s.parts.map fun p => (p.1.quote, p.2))

/-- A fragment without the name or the text in it. -/
def Fragment.blank : Fragment → Fragment
  | .plain s => .plain s
  | .identifier _ => .identifier ""
  | .quoted _ => .quoted ""
  | .param _ => .param ""

/-- Fragments without the names and texts in them. -/
def blanks (fs : List Fragment) : List Fragment := fs.map Fragment.blank

lemma blanks_cons (f : Fragment) (fs : List Fragment) :
    blanks (f :: fs) = f.blank :: blanks fs := rfl

@[simp] lemma blanks_append (fs gs : List Fragment) : blanks (fs ++ gs) = blanks fs ++ blanks gs :=
  List.map_append

@[simp] lemma blanks_plain (s : String) (fs : List Fragment) :
    blanks (.plain s :: fs) = .plain s :: blanks fs := rfl

@[simp] lemma blanks_identifier (s : String) (fs : List Fragment) :
    blanks (.identifier s :: fs) = .identifier "" :: blanks fs := rfl

@[simp] lemma blanks_alias (a : TableAlias) (fs : List Fragment) :
    blanks (a.fragment :: fs) = .identifier "" :: blanks fs := rfl

/-- What stands outside the quotes does not depend on what stands inside. -/
lemma outline_ofFragments (fs : List Fragment) (n : Nat) :
    (Split.ofFragments options style n (blanks fs)).outline =
      (Split.ofFragments options style n fs).outline := by
  induction fs generalizing n with
  | nil => rfl
  | cons f fs ih =>
    have hrest := ih (n + f.placeholders options)
    simp only [Split.outline, Prod.mk.injEq] at hrest
    cases f with
    | plain s | identifier s | quoted s =>
      simpa [blanks_cons, Split.ofFragments, Fragment.blank, Fragment.part?, Fragment.bare,
        Fragment.placeholders, Split.outline, Split.afterPart, Split.afterText] using hrest
    | param s =>
      by_cases hbinds : options.literalBinds = true <;>
        simpa [hbinds, blanks_cons, Split.ofFragments, Fragment.blank, Fragment.part?,
          Fragment.bare, Fragment.placeholders, Split.outline, Split.afterPart,
          Split.afterText] using hrest

lemma Spaced.of_blank {fs gs : List Fragment} (hfs : Spaced fs)
    (h : blanks fs = blanks gs) : Spaced gs := by
  have hblank : ∀ f : Fragment, f.blank.isPlain = f.isPlain := fun f => by cases f <;> rfl
  constructor
  · intro s hs
    have hmem : Fragment.blank (.plain s) ∈ blanks fs := h ▸ List.mem_map_of_mem hs
    obtain ⟨f, hf, hblank⟩ := List.mem_map.1 hmem
    cases f with
    | plain t =>
      cases hblank
      exact hfs.texts s hf
    | identifier _ | quoted _ | param _ => cases hblank
  · have hchain : (blanks fs).IsChain fun f g => f.isPlain = true ∨ g.isPlain = true := by
      rw [blanks, List.isChain_map]
      simpa only [hblank] using hfs.apart
    rw [h, blanks, List.isChain_map] at hchain
    simpa only [hblank] using hchain

end Outlines

section Skeletons

def TableAlias.skeleton (a : TableAlias) : TableAlias := { a with name := "" }

def TableRef.skeleton : TableRef → TableRef
  | .stored schema _ => .stored (schema.map fun _ => "") ""
  | .aliased a => .aliased a.skeleton

def ColumnRef.skeleton : ColumnRef → ColumnRef
  | .stored table _ => .stored table.skeleton ""
  | .labelled table _ => .labelled table.skeleton ""

def literalSkeleton : Literal → Literal
  | .str _ => .str ""
  | v => v

/-- One step of `Expr.skeleton`. -/
def Expr.skeletonNode : Expr → Expr
  | .column ref => .column ref.skeleton
  | .value v => .value (literalSkeleton v)
  | e => e

/-- An expression without the contents of its names and texts. -/
def Expr.skeleton (e : Expr) : Expr := e.mapNodes Expr.skeletonNode

mutual

/-- A query without the contents of its names and texts. -/
def Select.skeleton : Select → Select
  | ⟨distinct, columns, source, joins, condition, groupBy, orderBy, limit, offset⟩ =>
    ⟨distinct, columns.map fun c => ("", c.2.skeleton), sourceSkeleton source,
      joinSkeletons joins, condition.skeleton, groupBy.map Expr.skeleton,
      orderBy.map fun t => ⟨t.target.skeleton, t.direction⟩, limit, offset⟩

def sourceSkeleton : Option (Source Select) → Option (Source Select)
  | none => none
  | some (.table table a) => some (.table table.skeleton a.skeleton)
  | some (.subquery q a) => some (.subquery q.skeleton a.skeleton)

def joinSkeletons : List (Joined Select) → List (Joined Select)
  | [] => []
  | ⟨type, q, a, condition⟩ :: rest =>
    ⟨type, q.skeleton, a.skeleton, condition.skeleton⟩ :: joinSkeletons rest

end

lemma blanks_separated (between : String) (items : List (List Fragment)) :
    blanks (separated between items) = separated between (items.map blanks) := by
  induction items using separated.induct with
  | case1 => rfl
  | case2 item => rfl
  | case3 item rest hrest ih =>
    cases rest with
    | nil => exact absurd rfl hrest
    | cons next rest => simp [separated, ih]

lemma blanks_clause (keyword : String) (items : List (List Fragment)) :
    (clause keyword items).map blanks = clause keyword (items.map blanks) := by
  cases items with
  | nil => rfl
  | cons item rest => simp [clause, blanks_separated]

lemma blanks_flatten (items : List (List Fragment)) :
    blanks items.flatten = (items.map blanks).flatten := by
  rw [blanks, List.map_flatten]
  rfl

lemma blanks_table (t : TableRef) : blanks t.skeleton.fragments = blanks t.fragments := by
  cases t with
  | stored schema table => cases schema <;> rfl
  | aliased a => rfl

lemma blanks_column (r : ColumnRef) : blanks r.skeleton.fragments = blanks r.fragments := by
  cases r with
  | stored table name | labelled table name =>
    simp [ColumnRef.skeleton, ColumnRef.fragments, blanks_table]

lemma blanks_list {es : List Expr}
    (h : ∀ e ∈ es, blanks e.skeleton.fragments = blanks e.fragments) :
    (listFragments (es.map Expr.skeleton)).map blanks = (listFragments es).map blanks := by
  simpa [listFragments_eq] using h

lemma blanks_ordered {terms : List (Ordered Expr)}
    (h : ∀ t ∈ terms, blanks t.target.skeleton.fragments = blanks t.target.fragments) :
    (orderFragments (terms.map fun t => ⟨t.target.skeleton, t.direction⟩)).map blanks =
      (orderFragments terms).map blanks := by
  simpa [orderFragments_eq] using h

lemma blanks_literal (v : Literal) :
    blanks [literalFragment (literalSkeleton v)] = blanks [literalFragment v] := by
  cases v <;> rfl

lemma blanks_expr (e : Expr) : blanks e.skeleton.fragments = blanks e.fragments := by
  unfold Expr.skeleton
  induction e using Expr.induct with
  | and l r hl hr | or l r hl hr | binary l _ r hl hr =>
    simp [Expr.mapNodes, Expr.skeletonNode, Expr.fragments, hl, hr]
  | not e he | isNull e he | isNotNull e he | negate e he | cast e _ he | count e he
  | countDistinct e he => simp [Expr.mapNodes, Expr.skeletonNode, Expr.fragments, he]
  | isIn e es he hes =>
    have hlist := blanks_list hes
    simp only [Expr.mapNodes, Expr.skeletonNode, Expr.mapList_eq, Expr.fragments, blanks_append,
      blanks_plain, blanks_separated, List.cons_append, he]
    rw [← hlist]
    rfl
  | call f args hargs =>
    have hlist := blanks_list hargs
    simp only [Expr.mapNodes, Expr.skeletonNode, Expr.mapList_eq, Expr.fragments, blanks_append,
      blanks_plain, blanks_separated, List.cons_append]
    rw [← hlist]
    rfl
  | case whens otherwise hwhens hotherwise =>
    have hw : blanks (whenFragments (whens.map fun w =>
        (w.1.mapNodes Expr.skeletonNode, w.2.mapNodes Expr.skeletonNode))) =
        blanks (whenFragments whens) := by
      simp only [whenFragments_eq, List.flatMap_def, blanks_flatten, List.map_map]
      congr 1
      apply List.map_congr_left
      intro w hmem
      simp [hwhens w hmem]
    have ho : blanks (elseFragments (otherwise.map (Expr.mapNodes Expr.skeletonNode))) =
        blanks (elseFragments otherwise) := by
      cases otherwise with
      | none => rfl
      | some x => simp [elseFragments, hotherwise x rfl]
    simp only [Expr.mapNodes, Expr.skeletonNode, Expr.mapWhens_eq, Expr.mapOption_eq,
      Expr.fragments, blanks_append, blanks_plain, List.cons_append, hw, ho]
  | window f clause hf hpartition horder =>
    obtain ⟨partitionBy, orderBy, frame⟩ := clause
    have hp := blanks_list hpartition
    have ho := blanks_ordered horder
    simp only [Expr.mapNodes, Expr.skeletonNode, Expr.mapList_eq, Expr.mapOrdered_eq,
      Expr.fragments, blanks_append, blanks_plain, blanks_separated, List.map_append,
      blanks_clause, hf, ← hp, ← ho]
    rfl
  | column r => exact blanks_column r
  | value v => exact blanks_literal v
  | countAll => rfl

lemma blanks_columns (columns : List (String × Expr)) :
    blanks (separated ", " ((columns.map fun c => ("", c.2.skeleton)).map
      (columnFragments false))) =
      blanks (separated ", " (columns.map (columnFragments false))) := by
  rw [blanks_separated, blanks_separated, List.map_map, List.map_map, List.map_map]
  congr 1
  apply List.map_congr_left
  intro c _
  simp [columnFragments, blanks_expr]

lemma isTrue_skeleton (e : Expr) : e.skeleton.isTrue = e.isTrue := by
  cases e with
  | value v => cases v <;> rfl
  | window f clause => rfl
  | _ => rfl

lemma blanks_where (condition : Expr) :
    blanks (whereFragments condition.skeleton) = blanks (whereFragments condition) := by
  unfold whereFragments
  rw [isTrue_skeleton]
  split
  · rfl
  · rw [blanks_plain, blanks_plain, blanks_expr]

mutual

/-- With full names, a query and its skeleton have the same fragments up to names and texts. -/
theorem blanks_select : ∀ q : Select,
    blanks (q.skeleton.fragments false) = blanks (q.fragments false)
  | ⟨distinct, columns, source, joins, condition, groupBy, orderBy, limit, offset⟩ => by
    have hgroup : blanks (clause " GROUP BY " (listFragments (groupBy.map Expr.skeleton))).flatten =
        blanks (clause " GROUP BY " (listFragments groupBy)).flatten := by
      simp only [blanks_flatten, blanks_clause, blanks_list fun e _ => blanks_expr e]
    have horder : blanks (clause " ORDER BY " (orderFragments
        (orderBy.map fun t => ⟨t.target.skeleton, t.direction⟩))).flatten =
        blanks (clause " ORDER BY " (orderFragments orderBy)).flatten := by
      simp only [blanks_flatten, blanks_clause, blanks_ordered fun t _ => blanks_expr t.target]
    simp only [Select.skeleton, Select.fragments, blanks_append, List.cons_append, blanks_plain,
      blanks_columns, blanks_source source, blanks_joins joins, blanks_where, hgroup, horder]

theorem blanks_source : ∀ source : Option (Source Select),
    blanks (sourceFragments false (sourceSkeleton source)) = blanks (sourceFragments false source)
  | none => rfl
  | some (.table table a) => by simp [sourceSkeleton, sourceFragments, blanks_table]
  | some (.subquery q a) => by simp [sourceSkeleton, sourceFragments, blanks_select q]

theorem blanks_joins : ∀ joins : List (Joined Select),
    blanks (joinFragments false (joinSkeletons joins)) = blanks (joinFragments false joins)
  | [] => rfl
  | ⟨type, q, a, condition⟩ :: rest => by
    simp [joinSkeletons, joinFragments, blanks_select q, blanks_expr, blanks_joins rest]

end

lemma blanks_of_skeleton {q r : Select} (h : q.skeleton = r.skeleton) :
    blanks (q.fragments false) = blanks (r.fragments false) := by
  rw [← blanks_select q, h, blanks_select]

end Skeletons

/-- A query as a statement, or the statement that asks for its plan. -/
def Select.statement (options : RenderOptions) (style : ParamStyle) (plan : Option ExplainStyle)
    (q : Select) : SqlText :=
  match plan with
  | none => q.render options style
  | some plan => q.renderExplain options style plan

/-- The fragments of a statement. -/
def Select.statementFragments (simpleNames : Bool) (plan : Option ExplainStyle) (q : Select) :
    List Fragment :=
  (plan.map fun p => .plain p.keyword).toList ++ q.fragments simpleNames

lemma statement_eq (options : RenderOptions) (style : ParamStyle) (plan : Option ExplainStyle)
    (q : Select) : q.statement options style plan =
      .assemble options style (q.statementFragments options.simpleNames plan) := by
  cases plan <;> rfl

lemma statement_spaced {simpleNames : Bool} {q : Select} (h : q.InVocabulary)
    (plan : Option ExplainStyle) : Spaced (q.statementFragments simpleNames plan) := by
  have hq := select_spaced simpleNames q h
  cases plan with
  | none => exact hq
  | some plan =>
    have hkeyword : isPlainText plan.keyword = true := by
      cases plan <;> decide
    exact spaced_plain.2 ⟨hkeyword, hq⟩

end Sql

/-- A reader who cuts a statement at its quotes finds the names and texts that the statement was
written with, whatever they contain, and nothing of them outside the quotes: with full names, a
query that differs only in names and texts has the same text around its quoted parts. -/
theorem names_stay_quoted {tables : Set TableInfo} {s : QueryState}
    (h : Reachable tables {f | ∃ dialect, f = .builtIn dialect} s) (options : RenderOptions)
    (style : ParamStyle) (plan : Option ExplainStyle) :
    ∃ found, split (s.last.statement options style plan).sql = some found ∧
      found.parts.map Prod.fst =
        (s.last.fragments options.simpleNames).filterMap (Fragment.part? options) ∧
      (options.simpleNames = false → ∀ q : Select, q.skeleton = s.last.skeleton →
        ∃ other, split (q.statement options style plan).sql = some other ∧
          other.outline = found.outline) := by
  have hwords : s.last.InVocabulary := inVocabulary_inherited.reachable h
  have hspaced : Spaced (s.last.statementFragments options.simpleNames plan) :=
    statement_spaced hwords plan
  refine ⟨.ofFragments options style 0 (s.last.statementFragments options.simpleNames plan), ?_, ?_,
    ?_⟩
  · rw [statement_eq, split_assemble options style hspaced]
  · rw [Split.parts_ofFragments, Select.statementFragments, List.filterMap_append]
    cases plan <;> rfl
  · intro hnames q hq
    rw [hnames] at hspaced
    have hblanks : blanks (q.statementFragments false plan) =
        blanks (s.last.statementFragments false plan) := by
      simp only [Select.statementFragments, blanks_append, blanks_of_skeleton hq]
    refine ⟨.ofFragments options style 0 (q.statementFragments false plan), ?_, ?_⟩
    · rw [statement_eq, hnames, split_assemble options style (hspaced.of_blank hblanks.symm)]
    · rw [hnames, ← outline_ofFragments, hblanks, outline_ofFragments]

/-- A table whose names hold quotes of both kinds. -/
def quotedTable : TableInfo where
  schemaName := some "a\"b"
  tableName := "it's"
  columns := .ofList [("c\"\"", { name := "'d\".\"", type := .text })]

/-- A catalog with `quotedTable` alone. -/
def quotedCatalog : Catalog where
  tables := [("t", quotedTable)]

/-- All columns of `quotedTable`, and a text with quotes in it. -/
def quotedRequest : Request where
  collection := "t"
  pipeline := [.mutate (.ofList [("l'", .literal (.str "' OR \"x\" = '"))])]

/-- The names and the text of `quotedRequest`, in the order in which they are written. -/
def quotedParts : List QuotedPart :=
  [⟨'"', "it's_0".toList⟩, ⟨'"', "'d\".\"".toList⟩, ⟨'"', "c\"\"".toList⟩,
    ⟨'\'', "' OR \"x\" = '".toList⟩, ⟨'"', "l'".toList⟩, ⟨'"', "a\"b".toList⟩,
    ⟨'"', "it's".toList⟩, ⟨'"', "it's_0".toList⟩]

theorem quotedRequest_stays_quoted : ∃ s,
    quotedRequest.run quotedCatalog (.builtIn .postgres) = .ok s ∧
      ∃ found, split (s.last.statement ⟨true, false⟩ .dollar none).sql = some found ∧
        found.parts.map Prod.fst = quotedParts := by
  have hrun : (quotedRequest.run quotedCatalog (.builtIn .postgres)).map (fun s =>
      (s.last.fragments false).filterMap (Fragment.part? ⟨true, false⟩)) = .ok quotedParts := by
    decide +kernel
  obtain ⟨s, hs, hparts⟩ := map_eq_ok.1 hrun
  have hreach : Reachable quotedCatalog.infos {f | ∃ dialect, f = .builtIn dialect} s := by
    apply (quotedRequest.run_reachable hs).mono
    exact fun f hf => ⟨.postgres, hf⟩
  obtain ⟨found, hfound, hfragments, _⟩ := names_stay_quoted hreach ⟨true, false⟩ .dollar none
  exact ⟨s, hs, found, hfound, hfragments.trans hparts⟩

end PipelineSql
