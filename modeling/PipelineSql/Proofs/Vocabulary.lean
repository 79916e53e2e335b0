import PipelineSql.Proofs.Inheritance

/-!
# The words of a statement

The tables of the dialects name a fixed number of operators, functions and types. No others get
into a query: whatever a user supplies is a value or a name of a column.
-/

namespace PipelineSql

open Sql (Expr Ordered Over Select TableAlias)

namespace Sql

/-- The operators between two operands. -/
def operators : List String :=
  ["=", "<>", "<", "<=", ">", ">=", "+", "-", "*", "/", "%", "LIKE", "||"]

/-- The functions that are called by name. -/
def functionNames : List String :=
  ["abs", "round", "upper", "lower", "length", "trim", "sqrt", "exp", "ln", "cos", "sin", "cot",
    "date_part", "date_trunc", "strftime", "date", "coalesce", "avg", "sum", "min", "max",
    "var_samp", "stddev_samp", "row_number", "rank", "dense_rank", "percent_rank", "cume_dist"]

/-- The types that values are cast to. -/
def typeNames : List String :=
  ["BOOLEAN", "SMALLINT", "INTEGER", "BIGINT", "REAL", "DOUBLE PRECISION", "NUMERIC", "TEXT",
    "DATE", "TIMESTAMP", "ANY"]

namespace Expr

/-- What a window can be computed of. -/
def isWindowFunction : Expr → Bool
  | .call _ _ => true
  | .countAll => true
  | _ => false

/-- Whether a node uses a word that the dialects do not have, or lacks the branches or values that
it needs. -/
def isForeign : Expr → Bool
  | .binary _ operator _ => decide (operator ∉ operators)
  | .isIn _ values => values.isEmpty
  | .case whens _ => whens.isEmpty
  | .call f _ => decide (f ∉ functionNames)
  | .cast _ type => decide (type ∉ typeNames)
  | .window f _ => !f.isWindowFunction
  | _ => false

/-- Every operator, function and type of the expression is one of the dialects'. -/
def InVocabulary (e : Expr) : Prop := e.anyNode isForeign = false

section Constructors

variable {e l r : Expr} {es : List Expr} {name : String}

attribute [local simp] InVocabulary anyNode isForeign

@[simp] lemma inVocabulary_and :
    (and l r).InVocabulary ↔ l.InVocabulary ∧ r.InVocabulary := by
  simp

@[simp] lemma inVocabulary_or : (or l r).InVocabulary ↔ l.InVocabulary ∧ r.InVocabulary := by
  simp

@[simp] lemma inVocabulary_not : (not e).InVocabulary ↔ e.InVocabulary := by
  simp

@[simp] lemma inVocabulary_binary : (binary l name r).InVocabulary ↔
    name ∈ operators ∧ l.InVocabulary ∧ r.InVocabulary := by
  simp [and_assoc]

@[simp] lemma inVocabulary_isIn : (isIn e es).InVocabulary ↔
    es ≠ [] ∧ e.InVocabulary ∧ ∀ x ∈ es, x.InVocabulary := by
  simp [and_assoc]

@[simp] lemma inVocabulary_isNull : (isNull e).InVocabulary ↔ e.InVocabulary := by
  simp

@[simp] lemma inVocabulary_isNotNull : (isNotNull e).InVocabulary ↔ e.InVocabulary := by
  simp

@[simp] lemma inVocabulary_negate : (negate e).InVocabulary ↔ e.InVocabulary := by
  simp

@[simp] lemma inVocabulary_call :
    (call name es).InVocabulary ↔ name ∈ functionNames ∧ ∀ x ∈ es, x.InVocabulary := by
  simp

@[simp] lemma inVocabulary_case {whens : List (Expr × Expr)} {otherwise : Option Expr} :
    (case whens otherwise).InVocabulary ↔ whens ≠ [] ∧
      (∀ w ∈ whens, w.1.InVocabulary ∧ w.2.InVocabulary) ∧ ∀ x ∈ otherwise, x.InVocabulary := by
  simp [and_assoc]

@[simp] lemma inVocabulary_window {clause : Over Expr} : (window e clause).InVocabulary ↔
    e.isWindowFunction = true ∧ e.InVocabulary ∧ (∀ x ∈ clause.partitionBy, x.InVocabulary) ∧
      ∀ t ∈ clause.orderBy, t.target.InVocabulary := by
  simp [and_assoc]

@[simp] lemma inVocabulary_column {ref : ColumnRef} : (column ref).InVocabulary := rfl

@[simp] lemma inVocabulary_value {v : Literal} : (value v).InVocabulary := rfl

@[simp] lemma inVocabulary_cast :
    (cast e name).InVocabulary ↔ name ∈ typeNames ∧ e.InVocabulary := by
  simp

@[simp] lemma inVocabulary_countAll : countAll.InVocabulary := rfl

@[simp] lemma inVocabulary_count : (count e).InVocabulary ↔ e.InVocabulary := by
  simp

@[simp] lemma inVocabulary_countDistinct : (countDistinct e).InVocabulary ↔ e.InVocabulary := by
  simp

end Constructors

/-- Redirecting columns changes no word. -/
lemma InVocabulary.replaceAlias {e : Expr} (h : e.InVocabulary) (old new : TableAlias) :
    (e.replaceAlias old new).InVocabulary := by
  have hwindow : ∀ f : Expr, f.isWindowFunction = true →
      (f.replaceAlias old new).isWindowFunction = true := by
    intro f hf
    cases f <;> first | rfl | cases hf
  unfold Expr.replaceAlias at *
  induction e using induct with
  | and l r hl hr | or l r hl hr | binary l _ r hl hr =>
    simp_all [mapNodes, replaceAliasNode]
  | not e he | isNull e he | isNotNull e he | negate e he | cast e _ he | count e he
  | countDistinct e he => simp_all [mapNodes, replaceAliasNode]
  | isIn e es he hes => simp_all [mapNodes, replaceAliasNode]
  | call f args hargs => simp_all [mapNodes, replaceAliasNode]
  | case whens otherwise hwhens hotherwise =>
    obtain ⟨hne, hw, ho⟩ := inVocabulary_case.1 h
    simp only [mapNodes, replaceAliasNode, mapWhens_eq, mapOption_eq, inVocabulary_case]
    refine ⟨by simpa using hne, ?_, ?_⟩
    · intro w hmem
      obtain ⟨v, hv, rfl⟩ := List.mem_map.1 hmem
      exact ⟨(hwhens v hv).1 (hw v hv).1, (hwhens v hv).2 (hw v hv).2⟩
    · intro x hmem
      obtain ⟨y, hy, rfl⟩ := Option.map_eq_some_iff.1 hmem
      exact hotherwise y hy (ho y hy)
  | window f clause hf hpartition horder =>
    obtain ⟨partitionBy, orderBy, frame⟩ := clause
    simp_all [mapNodes, replaceAliasNode]
  | column r =>
    unfold mapNodes replaceAliasNode
    split
    · split <;> rfl
    · rfl
  | value v | countAll => rfl

end Expr

end Sql

open Sql (operators functionNames typeNames)

/-- The words of a template are among those of the dialects. -/
def Template.isKnown : Template → Bool
  | .operator symbol => decide (symbol ∈ operators)
  | .function name | .functionOf name _ | .overPartition name | .ranking name
  | .running name => decide (name ∈ functionNames)
  | _ => true

lemma scalarTemplate_isKnown {dialect : Dialect} {operation : Operation} {t : Template}
    (h : scalarTemplate dialect operation = some t) : t.isKnown = true := by
  have hcommon : ∀ operation t, commonScalar operation = some t → t.isKnown = true := by
    intro operation t h
    unfold commonScalar at h
    split at h <;> cases h <;> rfl
  unfold scalarTemplate at h
  split at h
  case h_9 => exact hcommon _ _ h
  all_goals
    cases h
    rfl

lemma aggregateTemplate_isKnown {dialect : Dialect} {operation : Operation} {t : Template}
    (h : aggregateTemplate dialect operation = some t) : t.isKnown = true := by
  unfold aggregateTemplate at h
  split at h <;> cases h <;> rfl

lemma windowTemplate_isKnown {dialect : Dialect} {operation : Operation} {t : Template}
    (h : windowTemplate dialect operation = some t) : t.isKnown = true := by
  unfold windowTemplate at h
  split at h <;> cases h <;> rfl

/-- The builders of the dialects come from templates with known words. -/
lemma known_of_lookup {dialect : Dialect} {operation : Operation} {mode : Mode} {builder : Builder}
    (h : (FunctionTable.builtIn dialect).lookup operation mode = .ok builder) :
    ∃ t : Template, builder = t.build ∧ t.isKnown = true := by
  obtain ⟨t, rfl, ht⟩ := FunctionTable.find?_builtIn (FunctionTable.lookup_eq_ok.1 h)
  refine ⟨t, rfl, ?_⟩
  rcases ht with ht | ⟨_, ht⟩ | ⟨_, ht⟩
  · exact scalarTemplate_isKnown ht
  · exact aggregateTemplate_isKnown ht
  · exact windowTemplate_isKnown ht

lemma castName_mem (dialect : Dialect) (t : ScalarType) : castName dialect t ∈ typeNames := by
  cases dialect <;> cases t <;> decide

lemma castTarget_mem {dialect : Dialect} {target : Expr} {type : String}
    (h : castTarget dialect target = .ok type) : type ∈ typeNames := by
  unfold castTarget at h
  split at h
  · split at h
    · cases h
      exact castName_mem _ _
    · cases h
  · cases h

section Building

variable {a : Arguments} {e : Expr} (ha : ∀ x ∈ a.all, x.InVocabulary)

include ha

lemma buildCast_inVocabulary {dialect : Dialect} (h : buildCast dialect a = .ok e) :
    e.InVocabulary := by
  unfold buildCast at h
  split at h
  · rename_i x target hargs _
    obtain ⟨type, htype, rfl⟩ := map_eq_ok.1 h
    have hx : x ∈ a.all := a.mem_all_of_mem_args (by simp [hargs])
    simpa using ⟨castTarget_mem htype, ha x hx⟩
  · rename_i x target hargs _
    obtain ⟨type, htype, rfl⟩ := map_eq_ok.1 h
    have hx : x ∈ a.all := a.mem_all_of_mem_args (by simp [hargs])
    simpa using ⟨castTarget_mem htype, ha x hx⟩
  · cases h

lemma buildCase_inVocabulary (h : buildCase a = .ok e) : e.InVocabulary := by
  unfold buildCase at h
  split at h
  · cases h
  · split at h
    · cases h
    · rename_i hpairs
      cases h
      simp only [Expr.inVocabulary_case]
      refine ⟨?_, ?_, ?_⟩
      · rcases hargs : a.args with _ | ⟨c, _ | ⟨x, rest⟩⟩ <;> simp_all [pairUp]
      · intro w hw
        have hmem := mem_of_mem_pairUp hw
        exact ⟨ha _ (a.mem_all_of_mem_args hmem.1), ha _ (a.mem_all_of_mem_args hmem.2)⟩
      · intro x hx
        exact ha x (Arguments.mem_all_of_lookup hx)

lemma buildIsIn_inVocabulary (h : buildIsIn a = .ok e) : e.InVocabulary := by
  obtain ⟨args, keywords⟩ := a
  rcases keywords with _ | ⟨k, ks⟩
  · rcases args with _ | ⟨x, _ | ⟨y, rest⟩⟩
    · cases h
    · cases h
      rfl
    · cases h
      simpa [Arguments.all] using ha
  · cases h

lemma buildRound_inVocabulary (h : buildRound a = .ok e) : e.InVocabulary := by
  unfold buildRound at h
  split at h
  · obtain ⟨x, hx, rfl⟩ := Arguments.one_eq_ok h
    simpa [functionNames] using ha x hx
  · obtain ⟨x, hx, y, hy, rfl⟩ := Arguments.two_eq_ok h
    simpa [functionNames] using ⟨ha x hx, ha y hy⟩
  · cases h

lemma buildCoalesce_inVocabulary (h : buildCoalesce a = .ok e) : e.InVocabulary := by
  obtain ⟨args, keywords⟩ := a
  rcases keywords with _ | ⟨k, ks⟩
  · rcases args with _ | ⟨x, rest⟩
    · cases h
    · cases h
      simpa [Expr.coalesce, functionNames, Arguments.all] using ha
  · rcases args with _ | ⟨x, rest⟩ <;> cases h

/-- What a template with known words builds of arguments with known words has no others. -/
lemma Template.build_inVocabulary {t : Template} (ht : t.isKnown = true)
    (h : t.build a = .ok (.expression e)) : e.InVocabulary := by
  cases t with
  | operator symbol =>
    obtain ⟨x, hx, y, hy, he⟩ := Arguments.two_eq_ok h
    cases he
    simpa using ⟨of_decide_eq_true ht, ha x hx, ha y hy⟩
  | and | or =>
    obtain ⟨x, hx, y, hy, he⟩ := Arguments.two_eq_ok h
    cases he
    simpa using ⟨ha x hx, ha y hy⟩
  | like matching =>
    obtain ⟨x, hx, y, hy, he⟩ := Arguments.two_eq_ok h
    cases he
    have hpattern : (matching.pattern y).InVocabulary := by
      cases matching <;> simpa [Matching.pattern, Expr.text, operators] using ha y hy
    simpa [operators] using ⟨ha x hx, hpattern⟩
  | function name | functionOf name text =>
    obtain ⟨x, hx, he⟩ := Arguments.one_eq_ok h
    cases he
    simpa [Expr.text] using ⟨of_decide_eq_true ht, ha x hx⟩
  | not | negate | isNull | isNotNull | countDistinct =>
    obtain ⟨x, hx, he⟩ := Arguments.one_eq_ok h
    cases he
    simpa using ha x hx
  | yearOfText | mondayOfText =>
    obtain ⟨x, hx, he⟩ := Arguments.one_eq_ok h
    cases he
    simpa [Expr.text, functionNames, typeNames] using ha x hx
  | between =>
    obtain ⟨x, hx, low, hlow, high, hhigh, he⟩ := Arguments.three_eq_ok h
    cases he
    simpa [operators] using ⟨⟨ha x hx, ha low hlow⟩, ha x hx, ha high hhigh⟩
  | ifElse =>
    obtain ⟨c, hc, yes, hyes, no, hno, he⟩ := Arguments.three_eq_ok h
    cases he
    simpa using ⟨⟨ha c hc, ha yes hyes⟩, ha no hno⟩
  | isIn =>
    obtain ⟨r, hr, he⟩ := map_eq_ok.1 h
    cases he
    exact buildIsIn_inVocabulary ha hr
  | round =>
    obtain ⟨r, hr, he⟩ := map_eq_ok.1 h
    cases he
    exact buildRound_inVocabulary ha hr
  | caseWhen =>
    obtain ⟨r, hr, he⟩ := map_eq_ok.1 h
    cases he
    exact buildCase_inVocabulary ha hr
  | coalesce =>
    obtain ⟨r, hr, he⟩ := map_eq_ok.1 h
    cases he
    exact buildCoalesce_inVocabulary ha hr
  | cast dialect =>
    obtain ⟨r, hr, he⟩ := map_eq_ok.1 h
    cases he
    exact buildCast_inVocabulary ha hr
  | countRows =>
    rw [build] at h
    obtain ⟨x, _, he⟩ := Arguments.atMostOne_eq_ok h
    cases he
    rfl
  | overPartition name | countPartition | ranking name | running name =>
    obtain ⟨call, he⟩ := (isWindow_iff_of_build h).1 rfl
    cases he

/-- The function of a window has known words as well. -/
lemma Template.build_window_inVocabulary {t : Template} (ht : t.isKnown = true) {call : WindowCall}
    (h : t.build a = .ok (.window call)) :
    call.function.isWindowFunction = true ∧ call.function.InVocabulary := by
  cases t with
  | overPartition name | running name =>
    obtain ⟨x, hx, he⟩ := Arguments.one_eq_ok h
    cases he
    refine ⟨rfl, ?_⟩
    simpa using ⟨of_decide_eq_true ht, ha x hx⟩
  | countPartition =>
    rw [build] at h
    obtain ⟨x, _, he⟩ := Arguments.atMostOne_eq_ok h
    cases he
    exact ⟨rfl, rfl⟩
  | ranking name =>
    rw [build] at h
    obtain ⟨x, _, he⟩ := Arguments.atMostOne_eq_ok h
    cases he
    refine ⟨rfl, ?_⟩
    simpa using of_decide_eq_true ht
  | _ =>
    have hwindow := (isWindow_iff_of_build h).2 ⟨call, rfl⟩
    simp [isWindow] at hwindow

end Building

/-- All that a query is built with keeps to the words of the dialects. -/
lemma inVocabulary_inherited : Inherited Expr.InVocabulary where
  column := fun _ => rfl
  value := fun _ => rfl
  and := fun _ _ hl hr => Expr.inVocabulary_and.2 ⟨hl, hr⟩
  equals := fun _ _ hl hr => Expr.inVocabulary_binary.2 ⟨by decide, hl, hr⟩
  coalesce := fun _ h => Expr.inVocabulary_call.2 ⟨by decide, h⟩
  countAll := rfl
  replaceAlias := fun _ old new h => h.replaceAlias old new
  built := by
    intro dialect operation mode builder a e hb ha h
    obtain ⟨t, rfl, ht⟩ := known_of_lookup hb
    exact Template.build_inVocabulary ha ht h
  window := by
    intro dialect operation mode builder a call clause hb ha h hpartition horder
    obtain ⟨t, rfl, ht⟩ := known_of_lookup hb
    obtain ⟨hfunction, hwords⟩ := Template.build_window_inVocabulary ha ht h
    exact Expr.inVocabulary_window.2 ⟨hfunction, hwords, hpartition, horder⟩

end PipelineSql
