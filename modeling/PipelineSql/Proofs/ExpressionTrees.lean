import PipelineSql.Proofs.Grammar

/-!
# The trees of expressions

An expression has one tree, and its text another when the `NOT` in it captures an operator: on the
left of an operator that binds more tightly, `NOT` takes the whole operation as its operand. The
two agree exactly when no node has a `NOT` there.
-/

namespace PipelineSql.Sql

/-- The names in a reference to a table. -/
def TableRef.path : TableRef → List String
  | .stored none table => [table]
  | .stored (some schema) table => [schema, table]
  | .aliased a => [a.identifier]

/-- The names in a reference to a column. -/
def ColumnRef.path : ColumnRef → List String
  | .stored table name => table.path ++ [name]
  | .labelled table label => table.path ++ [label]

/-- Whether a constant is written with a minus sign. -/
def hasSign : Literal → Bool
  | .int i => i.toInt < 0
  | .float x => x.isNegative
  | _ => false

/-- The tree of a constant without its sign. -/
def unsignedTree : Literal → Tree
  | .null => .null
  | .bool b => .truth b
  | .int i => .number (toString i.toInt.natAbs)
  | .float x => .number (Literal.numberLayout.magnitude x)
  | .str s => .text s

def literalTree (v : Literal) : Tree :=
  if hasSign v then .unary .minus (unsignedTree v) else unsignedTree v

/-- Wraps the operand of the `NOT` that a tree begins with. -/
def Tree.wrapInside (wrap : Tree → Tree) : Tree → Tree
  | .unary .not x => .unary .not (wrap x)
  | x => wrap x

namespace Expr

def isNot : Expr → Bool
  | .not _ => true
  | _ => false

/-- The tree around a left operand. When `captured`, the `NOT` of an operand gets all of it. -/
def around (captured : Bool) (left : Expr) (x : Tree) (wrap : Tree → Tree) : Tree :=
  if captured && left.isNot then x.wrapInside wrap else wrap x

mutual

/-- The tree of an expression, or the one that is read when operators are captured. -/
def treeWith (captured : Bool) : Expr → Tree
  | .and l r => .binary (l.treeWith captured) "AND" (r.treeWith captured)
  | .or l r => .binary (l.treeWith captured) "OR" (r.treeWith captured)
  | .not e => .unary .not (e.treeWith captured)
  | .binary l op r =>
    l.around captured (l.treeWith captured) fun x => .binary x op (r.treeWith captured)
  | .isIn e es => e.around captured (e.treeWith captured) fun x => .isIn x (treesWith captured es)
  | .isNull e => e.around captured (e.treeWith captured) .isNull
  | .isNotNull e => e.around captured (e.treeWith captured) .isNotNull
  | .negate e => .unary .minus (e.treeWith captured)
  | .call f args => .call f (treesWith captured args)
  | .case whens otherwise => .case (whenTrees captured whens) (optionTree captured otherwise)
  | .window e ⟨partitionBy, orderBy, frame⟩ =>
    .window (e.treeWith captured) (treesWith captured partitionBy) (orderTrees captured orderBy)
      frame
  | .column ref => .column ref.path
  | .value v => literalTree v
  | .cast e type => .cast (e.treeWith captured) type
  | .countAll => .callAll "COUNT"
  | .count e => .call "COUNT" [e.treeWith captured]
  | .countDistinct e => .callDistinct "COUNT" (e.treeWith captured)

def treesWith (captured : Bool) : List Expr → List Tree
  | [] => []
  | e :: es => e.treeWith captured :: treesWith captured es

def whenTrees (captured : Bool) : List (Expr × Expr) → List (Tree × Tree)
  | [] => []
  | (c, e) :: rest => (c.treeWith captured, e.treeWith captured) :: whenTrees captured rest

def optionTree (captured : Bool) : Option Expr → Option Tree
  | none => none
  | some e => some (e.treeWith captured)

def orderTrees (captured : Bool) : List (Ordered Expr) → List Tree
  | [] => []
  | ⟨e, d⟩ :: rest => .directed (e.treeWith captured) d :: orderTrees captured rest

end

/-- The tree of an expression. -/
def tree (e : Expr) : Tree := e.treeWith false

/-- Whether the left operand of a node captures its operator. -/
def capturesOperator : Expr → Bool
  | .binary l _ _ => l.isNot
  | .isIn e _ => e.isNot
  | .isNull e => e.isNot
  | .isNotNull e => e.isNot
  | _ => false

/-- Whether a node writes something other than a number where a number is meant: a word for one
that is not finite, or a second minus sign. -/
def isGarbled : Expr → Bool
  | .value (.float x) => !x.isFinite
  | .negate (.value v) => hasSign v
  | _ => false

/-- The parts of an expression. -/
def parts : Expr → List Expr
  | .and l r => [l, r]
  | .or l r => [l, r]
  | .not e => [e]
  | .binary l _ r => [l, r]
  | .isIn e es => e :: es
  | .isNull e => [e]
  | .isNotNull e => [e]
  | .negate e => [e]
  | .call _ args => args
  | .case whens otherwise => whens.map Prod.fst ++ whens.map Prod.snd ++ otherwise.toList
  | .window f clause => f :: clause.partitionBy ++ clause.orderBy.map Ordered.target
  | .column _ => []
  | .value _ => []
  | .cast e _ => [e]
  | .countAll => []
  | .count e => [e]
  | .countDistinct e => [e]

lemma mem_parts_case {whens : List (Expr × Expr)} {otherwise : Option Expr} {x : Expr} :
    x ∈ (case whens otherwise).parts ↔
      (∃ w ∈ whens, w.1 = x ∨ w.2 = x) ∨ x ∈ otherwise := by
  simp only [parts, List.mem_append, List.mem_map, Option.mem_toList, Option.mem_def, and_or_left,
    exists_or]

lemma mem_parts_window {f x : Expr} {clause : Over Expr} : x ∈ (window f clause).parts ↔
    x = f ∨ x ∈ clause.partitionBy ∨ ∃ t ∈ clause.orderBy, t.target = x := by
  simp [parts]

lemma of_anyNode_eq_false {p : Expr → Bool} {e : Expr} (h : e.anyNode p = false) :
    p e = false ∧ ∀ x ∈ e.parts, x.anyNode p = false := by
  cases e with
  | case whens otherwise =>
    obtain ⟨he, hwhens, hotherwise⟩ := (anyNode_case_eq_false p).1 h
    refine ⟨he, fun x hx => ?_⟩
    rcases mem_parts_case.1 hx with ⟨w, hw, rfl | rfl⟩ | hx
    · exact (hwhens w hw).1
    · exact (hwhens w hw).2
    · exact hotherwise x hx
  | window f clause =>
    obtain ⟨he, hf, hpartition, horder⟩ := (anyNode_window_eq_false p).1 h
    refine ⟨he, fun x hx => ?_⟩
    rcases mem_parts_window.1 hx with rfl | hx | ⟨t, ht, rfl⟩
    · exact hf
    · exact hpartition x hx
    · exact horder t ht
  | _ => simp_all [anyNode, parts]

/-- What passes from the parts to the whole holds of every expression. -/
lemma induct_parts {P : Expr → Prop} (h : ∀ e, (∀ x ∈ e.parts, P x) → P e) (e : Expr) : P e := by
  induction e using induct with
  | case whens otherwise hwhens hotherwise =>
    refine h _ fun x hx => ?_
    rcases mem_parts_case.1 hx with ⟨w, hw, rfl | rfl⟩ | hx
    · exact (hwhens w hw).1
    · exact (hwhens w hw).2
    · exact hotherwise x hx
  | window f clause hf hpartition horder =>
    refine h _ fun x hx => ?_
    rcases mem_parts_window.1 hx with rfl | hx | ⟨t, ht, rfl⟩
    · exact hf
    · exact hpartition x hx
    · exact horder t ht
  | and l r hl hr | or l r hl hr | binary l _ r hl hr => exact h _ (by simp [parts, hl, hr])
  | not e he | isNull e he | isNotNull e he | negate e he | cast e _ he | count e he
  | countDistinct e he => exact h _ (by simp [parts, he])
  | isIn e es he hes => exact h _ (by simpa [parts, he] using hes)
  | call _ args hargs => exact h _ hargs
  | column _ | value _ | countAll => exact h _ (by simp [parts])

attribute [local simp] treeWith

@[simp] lemma treesWith_eq (captured : Bool) (es : List Expr) :
    treesWith captured es = es.map (treeWith captured) := by
  induction es with
  | nil => rfl
  | cons e es ih => exact congrArg (e.treeWith captured :: ·) ih

@[simp] lemma whenTrees_eq (captured : Bool) (whens : List (Expr × Expr)) :
    whenTrees captured whens =
      whens.map fun w => (w.1.treeWith captured, w.2.treeWith captured) := by
  induction whens with
  | nil => rfl
  | cons w whens ih => exact congrArg ((w.1.treeWith captured, w.2.treeWith captured) :: ·) ih

@[simp] lemma optionTree_eq (captured : Bool) (o : Option Expr) :
    optionTree captured o = o.map (treeWith captured) := by
  cases o <;> rfl

@[simp] lemma orderTrees_eq (captured : Bool) (terms : List (Ordered Expr)) :
    orderTrees captured terms =
      terms.map fun t => .directed (t.target.treeWith captured) t.direction := by
  induction terms with
  | nil => rfl
  | cons t terms ih => exact congrArg (.directed (t.target.treeWith captured) t.direction :: ·) ih

lemma around_eq_iff {l : Expr} {wrap wrap' : Tree → Tree} {P : Prop}
    (hnot : ∀ x y, .unary .not x ≠ wrap' y)
    (hwrap : wrap (l.treeWith true) = wrap' (l.treeWith false) ↔ P) :
    l.around true (l.treeWith true) wrap = l.around false (l.treeWith false) wrap' ↔
      l.isNot = false ∧ P := by
  -- A captured operator leaves `NOT` at the root, where the tree of the operation has none.
  cases l with
  | not e => simpa [around, isNot, Tree.wrapInside] using hnot _ _
  | _ => simpa [around, isNot] using hwrap

lemma map_treeWith_eq_iff {es : List Expr} (h : ∀ e ∈ es, e.treeWith true = e.treeWith false ↔
    e.anyNode capturesOperator = false) : es.map (treeWith true) = es.map (treeWith false) ↔
      ∀ e ∈ es, e.anyNode capturesOperator = false := by
  rw [List.map_inj_left]
  exact forall₂_congr h

/-- The text reads as the tree of the expression exactly when no operator is captured. -/
lemma treeWith_eq_tree_iff (e : Expr) :
    e.treeWith true = e.tree ↔ e.anyNode capturesOperator = false := by
  unfold tree
  induction e using induct with
  | and l r hl hr | or l r hl hr => simp [anyNode, capturesOperator, hl, hr]
  | binary l op r hl hr =>
    rw [treeWith, treeWith, around_eq_iff (by simp) (P := l.anyNode capturesOperator = false ∧
      r.anyNode capturesOperator = false) (by simp [hl, hr])]
    simp [anyNode, capturesOperator, and_assoc]
  | isIn e es he hes =>
    rw [treeWith, treeWith, around_eq_iff (by simp) (P := e.anyNode capturesOperator = false ∧
      ∀ x ∈ es, x.anyNode capturesOperator = false)]
    · simp [anyNode, capturesOperator, and_assoc]
    · rw [treesWith_eq, treesWith_eq, Tree.isIn.injEq, he, map_treeWith_eq_iff hes]
  | isNull e he | isNotNull e he =>
    rw [treeWith, treeWith, around_eq_iff (by simp) (P := e.anyNode capturesOperator = false)
      (by simp [he])]
    simp [anyNode, capturesOperator]
  | not e he | negate e he | cast e _ he | count e he | countDistinct e he =>
    simp [anyNode, capturesOperator, he]
  | call f args hargs =>
    rw [treeWith, treeWith, treesWith_eq, treesWith_eq, Tree.call.injEq, map_treeWith_eq_iff hargs]
    simp [anyNode, capturesOperator]
  | case whens otherwise hwhens hotherwise =>
    have hw : (whens.map fun w => (w.1.treeWith true, w.2.treeWith true)) =
        (whens.map fun w => (w.1.treeWith false, w.2.treeWith false)) ↔
        ∀ w ∈ whens, w.1.anyNode capturesOperator = false ∧
          w.2.anyNode capturesOperator = false := by
      rw [List.map_inj_left]
      refine forall₂_congr fun w hw => ?_
      rw [Prod.mk.injEq, (hwhens w hw).1, (hwhens w hw).2]
    have ho : otherwise.map (treeWith true) = otherwise.map (treeWith false) ↔
        ∀ e ∈ otherwise, e.anyNode capturesOperator = false := by
      cases otherwise with
      | none => simp
      | some e => simp [hotherwise e rfl]
    rw [treeWith, treeWith, whenTrees_eq, whenTrees_eq, optionTree_eq, optionTree_eq,
      Tree.case.injEq, hw, ho, anyNode_case_eq_false]
    simp [capturesOperator]
  | window f clause hf hpartition horder =>
    obtain ⟨partitionBy, orderBy, frame⟩ := clause
    have ho : (orderBy.map fun t => Tree.directed (t.target.treeWith true) t.direction) =
        (orderBy.map fun t => Tree.directed (t.target.treeWith false) t.direction) ↔
        ∀ t ∈ orderBy, t.target.anyNode capturesOperator = false := by
      rw [List.map_inj_left]
      refine forall₂_congr fun t ht => ?_
      simp [horder t ht]
    rw [treeWith, treeWith, treesWith_eq, treesWith_eq, orderTrees_eq, orderTrees_eq,
      Tree.window.injEq, hf, map_treeWith_eq_iff hpartition, ho, anyNode_window_eq_false]
    simp [capturesOperator]
  | column r => simp [anyNode, capturesOperator]
  | value v => simp [anyNode, capturesOperator]
  | countAll => simp [anyNode, capturesOperator]

end Expr

end PipelineSql.Sql
