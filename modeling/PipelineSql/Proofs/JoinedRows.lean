import Mathlib.Data.List.Perm.Basic
import Mathlib.Data.List.ProdSigma
import PipelineSql.Proofs.ColumnNames
import PipelineSql.Proofs.Reachability
import PipelineSql.Proofs.RowEvaluation

/-!
# The rows of a join

What a statement with a join means on the rows of its two subqueries, and what a join of two
relations should have for rows, row by row. The statement of a join has these rows, in some order;
a right join, too, which is written as a left join with its sides swapped.
-/

namespace PipelineSql

open Sql (Expr Env Select TableAlias JoinType rowEnv)
open QueryState (isSharedKey joinLabel joinStage joinCondition)

variable {V : Type}

/-- A left and a right row of a join, where at most one of them is missing. -/
abbrev Sides (V : Type) := Option (Row V) × Option (Row V)

/-- A row that holds nothing but nulls. -/
def nullRow (I : Interpretation V) (names : List String) : Row V :=
  names.map fun n => (n, I.literal .null)

namespace Sql

/-- A row of each of two subqueries, whose columns are read under their aliases. -/
def joinedEnv (a b : TableAlias) (first second : Row V) : Env V := fun r =>
  (rowEnv a first r).or (rowEnv b second r)

/-- The rows that a join of two lists puts together: all pairs that meet its condition, and the rows
without a partner that its type keeps. -/
def JoinType.sides [DecidableEq V] (type : JoinType) (meets : Row V → Row V → Option Bool)
    (first second : List (Row V)) : Option (List (Sides V)) := do
  let matched ← keepWhere (fun p => meets p.1 p.2) (first.product second)
  let loneFirst := first.filter fun x => x ∉ matched.map Prod.fst
  let loneSecond := second.filter fun y => y ∉ matched.map Prod.snd
  return matched.map (fun p => (some p.1, some p.2)) ++
    (if type = .inner then [] else loneFirst.map fun x => (some x, none)) ++
    (if type = .fullOuter then loneSecond.map fun y => (none, some y) else [])

/-- The rows of a statement that joins two subqueries, of which `contents` gives the rows. A row
without a partner is read beside nulls. -/
def Select.joinRows [DecidableEq V] (I : Interpretation V)
    (contents : Select → TableAlias → List (Row V)) (q : Select) : Option (List (Row V)) :=
  match q.source, q.joins with
  | some (.subquery p a), [j] =>
    if q.groupBy.isEmpty && q.orderBy.isEmpty then do
      let sides ← j.type.sides
        (fun x y => (j.condition.eval I (joinedEnv a j.tableAlias x y)).map I.holds)
        (contents p a) (contents j.select j.tableAlias)
      q.selected I (sides.map fun side => joinedEnv a j.tableAlias
        (side.1.getD (nullRow I p.columnNames)) (side.2.getD (nullRow I j.select.columnNames)))
    else none
  | _, _ => none

end Sql

/-- Two values compare as equal. -/
def valuesEqual (I : Interpretation V) : Option V → Option V → Bool
  | some x, some y => I.holds (I.binary "=" x y)
  | _, _ => false

/-- The keys of two rows are equal, pair by pair. -/
def keysEqual (I : Interpretation V) (keys : List (String × String)) (l r : Row V) : Bool :=
  keys.all fun k => valuesEqual I (l.lookup k.1) (r.lookup k.2)

/-- The rows that a join of a kind puts side by side: a left and a right row with equal keys, or a
row that has no partner. -/
def joinedSides (I : Interpretation V) (keys : List (String × String)) (kind : JoinKind)
    (left right : List (Row V)) : List (Sides V) :=
  ((left.product right).filter fun p => keysEqual I keys p.1 p.2).map
      (fun p => (some p.1, some p.2)) ++
    (if kind = .left ∨ kind = .full then
      (left.filter fun l => right.all fun r => !keysEqual I keys l r).map fun l => (some l, none)
    else []) ++
    (if kind = .right ∨ kind = .full then
      (right.filter fun r => left.all fun l => !keysEqual I keys l r).map fun r => (none, some r)
    else [])

/-- A value that a column has on a side that is not missing. -/
def Contributed (side : Sides V) (n : String) (v : V) : Prop :=
  ∃ present, (side.1 = some present ∨ side.2 = some present) ∧ present.lookup n = some v

/-- An entry of the left side and what a row of a join has for it: its own value, or for a shared
key the value of a side that is not missing. A name that clashes gets an ending. -/
def JoinedEntry (s t : QueryState) (keys : List (String × String)) (side : Sides V)
    (e c : String × V) : Prop :=
  c.1 = joinLabel s t keys "_x" e.1 ∧
    if isSharedKey keys e.1 then Contributed side e.1 c.2 else c.2 = e.2

/-- A row of a join. It has the columns of the left side and then those of the right side that are
no shared keys, each with the value of its side, which is null where that side is missing. -/
def JoinedRow (I : Interpretation V) (s t : QueryState) (keys : List (String × String))
    (side : Sides V) (row : Row V) : Prop :=
  ∃ left, List.Forall₂ (JoinedEntry s t keys side) (side.1.getD (nullRow I s.columnNames)) left ∧
    row = left ++ ((side.2.getD (nullRow I t.columnNames)).filter
      fun e => !isSharedKey keys e.1).map fun e => (joinLabel s t keys "_y" e.1, e.2)

/-- Of two values, `COALESCE` gives the first one that is not null. -/
def CoalescesNulls [DecidableEq V] (I : Interpretation V) : Prop :=
  ∀ a b, I.call "coalesce" [a, b] = if a = I.literal .null then b else a

section Matched

variable {α β : Type} {first : List α} {second : List β} {b : α → β → Bool}

lemma mem_matched_fst {x : α} (hx : x ∈ first) :
    x ∈ ((first.product second).filter fun p => b p.1 p.2).map Prod.fst ↔
      ∃ y ∈ second, b x y = true := by
  simp only [List.mem_map, List.mem_filter, Prod.exists, exists_and_right, exists_eq_right]
  exact exists_congr fun y => and_congr_left fun _ =>
    List.mem_product.trans (and_iff_right hx)

lemma mem_matched_snd {y : β} (hy : y ∈ second) :
    y ∈ ((first.product second).filter fun p => b p.1 p.2).map Prod.snd ↔
      ∃ x ∈ first, b x y = true := by
  simp only [List.mem_map, List.mem_filter, Prod.exists, exists_eq_right]
  exact exists_congr fun x => and_congr_left fun _ =>
    List.mem_product.trans (and_iff_left hy)

end Matched

/-- Where the condition of a join has an answer for all pairs, the rows without a partner are those
for which it never holds. -/
lemma Sql.JoinType.sides_eq [DecidableEq V] (type : JoinType) (first second : List (Row V))
    {meets : Row V → Row V → Option Bool} {b : Row V → Row V → Bool}
    (h : ∀ x ∈ first, ∀ y ∈ second, meets x y = some (b x y)) : type.sides meets first second =
      some (((first.product second).filter fun p => b p.1 p.2).map
          (fun p => (some p.1, some p.2)) ++
        (if type = .inner then []
        else (first.filter fun x => second.all fun y => !b x y).map fun x => (some x, none)) ++
        (if type = .fullOuter then
          (second.filter fun y => first.all fun x => !b x y).map fun y => (none, some y)
        else [])) := by
  have hmatched : keepWhere (fun p => meets p.1 p.2) (first.product second) =
      some ((first.product second).filter fun p => b p.1 p.2) := by
    refine keepWhere_eq_filter fun p hp => ?_
    obtain ⟨hx, hy⟩ := List.mem_product.1 hp
    exact h p.1 hx p.2 hy
  have hfirst : (first.filter fun x =>
      x ∉ ((first.product second).filter fun p => b p.1 p.2).map Prod.fst) =
      first.filter fun x => second.all fun y => !b x y := by
    refine List.filter_congr fun x hx => ?_
    rw [← Bool.coe_iff_coe, decide_eq_true_eq, mem_matched_fst hx]
    simp
  have hsecond : (second.filter fun y =>
      y ∉ ((first.product second).filter fun p => b p.1 p.2).map Prod.snd) =
      second.filter fun y => first.all fun x => !b x y := by
    refine List.filter_congr fun y hy => ?_
    rw [← Bool.coe_iff_coe, decide_eq_true_eq, mem_matched_snd hy]
    simp
  rw [sides, hmatched]
  simp only [Option.bind_eq_bind, Option.bind_some, hfirst, hsecond]
  rfl

/-- The pairs of two lists are those of the lists in the other order. -/
lemma perm_product_swap {α β : Type} (l : List α) (m : List β) :
    ((m.product l).map Prod.swap).Perm (l.product m) := by
  induction l with
  | nil => simp [List.product]
  | cons a l ih =>
    have hsplit : (m.product (a :: l)).map Prod.swap =
        m.flatMap fun b => (a, b) :: (l.map (Prod.mk b)).map Prod.swap := by
      simp [List.product, List.map_flatMap]
    have hrest : (m.flatMap fun b => (l.map (Prod.mk b)).map Prod.swap) =
        (m.product l).map Prod.swap := by
      simp [List.product, List.map_flatMap]
    rw [hsplit]
    refine (List.map_append_flatMap_perm m (Prod.mk a) _).symm.trans ?_
    rw [hrest]
    exact ih.append_left _

/-- The sides of a right join are those of a left join with its sides swapped, in another order. -/
lemma joinedSides_right_perm (I : Interpretation V) (keys : List (String × String))
    (left right : List (Row V)) :
    List.Perm (List.map Prod.swap
      (((right.product left).filter fun p => keysEqual I keys p.2 p.1).map
          (fun p => ((some p.1, some p.2) : Sides V)) ++
        (right.filter fun r => left.all fun l => !keysEqual I keys l r).map
          fun r => (some r, none)))
      (joinedSides I keys .right left right) := by
  have hmatched : List.Perm
      (((right.product left).filter fun p => keysEqual I keys p.2 p.1).map Prod.swap)
      ((left.product right).filter fun p => keysEqual I keys p.1 p.2) := by
    have hfilter := (perm_product_swap left right).filter fun p => keysEqual I keys p.1 p.2
    rwa [List.filter_map] at hfilter
  have hpairs := hmatched.map fun p => (some p.1, some p.2)
  rw [List.map_map] at hpairs
  simp only [joinedSides, List.map_append, List.map_map, reduceCtorEq, or_self, or_false, if_false,
    if_true, List.append_nil]
  exact hpairs.append_right _

section Environments

variable {I : Interpretation V} {lhs rhs : TableAlias} {l r : Row V}

/-- An environment in which the columns of two aliases are read from two rows. -/
structure ReadsSides (I : Interpretation V) (env : Env V) (lhs rhs : TableAlias) (l r : Row V) :
    Prop where
  left : ∀ n, (Expr.labelled lhs n).eval I env = l.lookup n
  right : ∀ n, (Expr.labelled rhs n).eval I env = r.lookup n

lemma eval_labelled_rowEnv {a b : TableAlias} {n : String} {row : Row V} :
    rowEnv a row (.labelled (.aliased b) n) = if b = a then row.lookup n else none := by
  simp [rowEnv, Sql.ColumnRef.table, Sql.ColumnRef.name]

lemma ReadsSides.joinedEnv (h : lhs ≠ rhs) :
    ReadsSides I (Sql.joinedEnv lhs rhs l r) lhs rhs l r where
  left := by
    intro n
    simp [Expr.labelled, Expr.eval, Sql.joinedEnv, eval_labelled_rowEnv, h]
  right := by
    intro n
    simp [Expr.labelled, Expr.eval, Sql.joinedEnv, eval_labelled_rowEnv, h.symm]

lemma ReadsSides.swap {env : Env V} (h : ReadsSides I env rhs lhs r l) :
    ReadsSides I env lhs rhs l r := ⟨h.right, h.left⟩

lemma exists_lookup_of_labels {row : Row V} {names : List String}
    (h : row.map Prod.fst = names) {n : String} (hn : n ∈ names) : ∃ v, row.lookup n = some v :=
  exists_lookup (h.symm ▸ hn)

/-- The condition of a join holds exactly where the keys are equal. -/
lemma holds_joinCondition {s t : QueryState} {keys : List (String × String)} {condition : Expr}
    {env : Env V}
    (h : joinCondition (.ofSubquery s.last lhs) (.ofSubquery t.last rhs) keys = .ok condition)
    (hl : l.map Prod.fst = s.columnNames) (hr : r.map Prod.fst = t.columnNames)
    (henv : ReadsSides I env lhs rhs l r) :
    (condition.eval I env).map I.holds = some (keysEqual I keys l r) := by
  simp only [joinCondition, bind_eq_ok, pure_eq_ok] at h
  obtain ⟨equations, hequations, rfl⟩ := h
  have hvalues : List.Forall₂ (fun k e => ∃ v,
      I.holds v = valuesEqual I (l.lookup k.1) (r.lookup k.2) ∧ e.eval I env = some v)
      keys equations := by
    refine (mapM_eq_ok.1 hequations).imp ?_
    intro k e hk
    simp only [bind_eq_ok, pure_eq_ok] at hk
    obtain ⟨x, hx, y, hy, rfl⟩ := hk
    obtain ⟨rfl, hleft⟩ := Scope.lookup_ofSubquery hx
    obtain ⟨rfl, hright⟩ := Scope.lookup_ofSubquery hy
    obtain ⟨v, hv⟩ := exists_lookup_of_labels hl hleft
    obtain ⟨w, hw⟩ := exists_lookup_of_labels hr hright
    refine ⟨I.binary "=" v w, by rw [hv, hw, valuesEqual], ?_⟩
    simp [Expr.equals, Expr.eval, henv.left, henv.right, hv, hw]
  obtain ⟨vs, hkeys, hvs⟩ := exists_forall₂ hvalues
  have hmap : vs.map I.holds = keys.map fun k => valuesEqual I (l.lookup k.1) (r.lookup k.2) :=
    map_eq_of_forall₂ hkeys
  have hall : vs.all I.holds = keysEqual I keys l r := by
    calc vs.all I.holds = (vs.map I.holds).all id := by rw [List.all_map, Function.id_comp]
      _ = (keys.map fun k => valuesEqual I (l.lookup k.1) (r.lookup k.2)).all id := by rw [hmap]
      _ = keysEqual I keys l r := by rw [List.all_map, Function.id_comp, keysEqual]
  rw [Expr.holds_conjunction I env (mapM_eq_some.2 hvs), hall]

end Environments

section Statements

variable [DecidableEq V] {I : Interpretation V} {contents : Select → TableAlias → List (Row V)}
  {s t : QueryState} {keys : List (String × String)} {lhs rhs : TableAlias} {condition : Expr}

/-- The statement of a join selects from the rows that the join puts side by side, in some order. -/
lemma exists_sides_of_joinStage (kind : JoinKind) (list : List (String × Expr)) (halias : lhs ≠ rhs)
    (hcondition : ∀ l ∈ contents s.last lhs, ∀ r ∈ contents t.last rhs, ∀ env,
      ReadsSides I env lhs rhs l r →
        (condition.eval I env).map I.holds = some (keysEqual I keys l r)) :
    ∃ (sides : List (Sides V)) (env : Sides V → Env V),
      sides.Perm (joinedSides I keys kind (contents s.last lhs) (contents t.last rhs)) ∧
      (joinStage s t kind list lhs rhs condition).joinRows I contents =
        (joinStage s t kind list lhs rhs condition).selected I (sides.map env) ∧
      ∀ side, ReadsSides I (env side) lhs rhs (side.1.getD (nullRow I s.columnNames))
        (side.2.getD (nullRow I t.columnNames)) := by
  cases kind with
  | right =>
    -- The statement reads the right side first, so its rows come in the order of the right side.
    have hsides := JoinType.leftOuter.sides_eq (contents t.last rhs) (contents s.last lhs)
      (b := fun r l => keysEqual I keys l r)
      fun r hr l hl => hcondition l hl r hr _ (ReadsSides.joinedEnv halias.symm).swap
    refine ⟨_, fun side => Sql.joinedEnv rhs lhs (side.2.getD (nullRow I t.columnNames))
      (side.1.getD (nullRow I s.columnNames)), joinedSides_right_perm I keys _ _, ?_,
      fun _ => (ReadsSides.joinedEnv halias.symm).swap⟩
    simp only [joinStage, Select.joinRows, Select.reading, JoinKind.sqlType, hsides]
    simp [QueryState.columnNames, Function.comp_def]
  | inner | left | full =>
    have hsides := fun type : JoinType => type.sides_eq (contents s.last lhs) (contents t.last rhs)
      fun l hl r hr => hcondition l hl r hr _ (.joinedEnv halias)
    refine ⟨_, fun side => Sql.joinedEnv lhs rhs (side.1.getD (nullRow I s.columnNames))
      (side.2.getD (nullRow I t.columnNames)), .refl _, ?_, fun _ => .joinedEnv halias⟩
    simp only [joinStage, Select.joinRows, Select.reading, JoinKind.sqlType, hsides]
    simp [joinedSides, QueryState.columnNames]

/-- A join selects one row for each row that it reads. -/
lemma selected_joinStage {kind : JoinKind} {list : List (String × Expr)} {envs : List (Env V)}
    {rows : List (Row V)}
    (h : List.Forall₂ (fun env row => Select.evalColumns I list env = some row) envs rows) :
    (joinStage s t kind list lhs rhs condition).selected I envs = some rows := by
  have hcut : (joinStage s t kind list lhs rhs condition).changesRowSet = false := by
    cases kind <;> rfl
  have hkept : keepWhere (fun env => ((joinStage s t kind list lhs rhs condition).condition.eval I
      env).map I.holds) envs = some (envs.filter fun _ => true) := by
    refine keepWhere_eq_filter fun env _ => ?_
    simp [Expr.always, Expr.eval, I.holds_always]
  rw [Select.selected, hkept, List.filter_true]
  simp [mapM_eq_some.2 h, Select.cut_of_changesRowSet hcut]

end Statements

section Contributions

variable {I : Interpretation V} {keys : List (String × String)} {kind : JoinKind}
  {left right : List (Row V)} {side : Sides V}

lemma mem_joinedSides (h : side ∈ joinedSides I keys kind left right) :
    (∃ l ∈ left, ∃ r ∈ right, side = (some l, some r)) ∨
      ((kind = .left ∨ kind = .full) ∧ ∃ l ∈ left, side = (some l, none)) ∨
      ((kind = .right ∨ kind = .full) ∧ ∃ r ∈ right, side = (none, some r)) := by
  simp only [joinedSides, List.mem_append, List.mem_map] at h
  rcases h with (⟨p, hp, rfl⟩ | h) | h
  · obtain ⟨hl, hr⟩ := List.mem_product.1 (List.mem_of_mem_filter hp)
    exact Or.inl ⟨p.1, hl, p.2, hr, rfl⟩
  · split at h
    · obtain ⟨l, hl, rfl⟩ := List.mem_map.1 h
      exact Or.inr (Or.inl ⟨‹_›, l, List.mem_of_mem_filter hl, rfl⟩)
    · cases h
  · split at h
    · obtain ⟨r, hr, rfl⟩ := List.mem_map.1 h
      exact Or.inr (Or.inr ⟨‹_›, r, List.mem_of_mem_filter hr, rfl⟩)
    · cases h

/-- What is put side by side are rows of the two sides. -/
lemma mem_of_mem_joinedSides (h : side ∈ joinedSides I keys kind left right) :
    (∀ l ∈ side.1, l ∈ left) ∧ ∀ r ∈ side.2, r ∈ right := by
  rcases mem_joinedSides h with ⟨l, hl, r, hr, rfl⟩ | ⟨_, l, hl, rfl⟩ | ⟨_, r, hr, rfl⟩
  · exact ⟨by simpa using hl, by simpa using hr⟩
  · exact ⟨by simpa using hl, by simp⟩
  · exact ⟨by simp, by simpa using hr⟩

end Contributions

section NullRows

variable {I : Interpretation V} {names : List String}

lemma labels_nullRow : (nullRow I names).map Prod.fst = names := by
  simp [nullRow, Function.comp_def]

lemma lookup_nullRow {n : String} (h : n ∈ names) :
    (nullRow I names).lookup n = some (I.literal .null) := by
  obtain ⟨v, hv⟩ := exists_lookup_of_labels (labels_nullRow (I := I)) h
  obtain ⟨m, _, he⟩ := List.mem_map.1 (mem_of_lookup hv)
  cases he
  exact hv

/-- A row has the same labels as the row of nulls that stands in for it. -/
lemma labels_getD_nullRow {o : Option (Row V)} (h : ∀ row ∈ o, row.map Prod.fst = names) :
    (o.getD (nullRow I names)).map Prod.fst = names := by
  cases o with
  | none => exact labels_nullRow
  | some row => exact h row rfl

end NullRows

section Rows

variable {I : Interpretation V} {s t : QueryState} {keys : List (String × String)} {kind : JoinKind}
  {lhs rhs : TableAlias} {env : Env V} {side : Sides V}

/-- The expression of a shared key takes its value from a side that is not missing. -/
lemma eval_sharedKey [DecidableEq V] {left right : List (Row V)} {n : String}
    (hI : CoalescesNulls I) (hleft : ∀ l ∈ left, l.map Prod.fst = s.columnNames)
    (hright : ∀ r ∈ right, r.map Prod.fst = t.columnNames)
    (hn : n ∈ s.columnNames ∧ n ∈ t.columnNames)
    (hside : side ∈ joinedSides I keys kind left right)
    (henv : ReadsSides I env lhs rhs (side.1.getD (nullRow I s.columnNames))
      (side.2.getD (nullRow I t.columnNames))) :
    ∃ v, (kind.sharedKey (.labelled lhs n) (.labelled rhs n)).eval I env = some v ∧
      Contributed side n v := by
  obtain ⟨hl, hr⟩ := henv
  have hcoalesce : ∀ {v w : V}, (Expr.labelled lhs n).eval I env = some v →
      (Expr.labelled rhs n).eval I env = some w →
      (Expr.coalesce [.labelled lhs n, .labelled rhs n]).eval I env =
        some (if v = I.literal .null then w else v) := by
    intro v w hv hw
    simp [Expr.coalesce, Expr.eval, hv, hw, hI v w]
  rcases mem_joinedSides hside with ⟨l, hlmem, r, hrmem, rfl⟩ | ⟨hkind, l, hlmem, rfl⟩ |
    ⟨hkind, r, hrmem, rfl⟩
  · obtain ⟨v, hv⟩ := exists_lookup_of_labels (hleft l hlmem) hn.1
    obtain ⟨w, hw⟩ := exists_lookup_of_labels (hright r hrmem) hn.2
    have hevalLeft := (hl n).trans hv
    have hevalRight := (hr n).trans hw
    cases kind with
    | inner | left => exact ⟨v, hevalLeft, l, Or.inl rfl, hv⟩
    | right => exact ⟨w, hevalRight, r, Or.inr rfl, hw⟩
    | full =>
      refine ⟨_, hcoalesce hevalLeft hevalRight, ?_⟩
      split
      · exact ⟨r, Or.inr rfl, hw⟩
      · exact ⟨l, Or.inl rfl, hv⟩
  · obtain ⟨v, hv⟩ := exists_lookup_of_labels (hleft l hlmem) hn.1
    have hevalLeft := (hl n).trans hv
    refine ⟨v, ?_, l, Or.inl rfl, hv⟩
    rcases hkind with rfl | rfl
    · exact hevalLeft
    · rw [JoinKind.sharedKey, hcoalesce hevalLeft ((hr n).trans (lookup_nullRow hn.2))]
      split <;> simp [*]
  · obtain ⟨w, hw⟩ := exists_lookup_of_labels (hright r hrmem) hn.2
    have hevalRight := (hr n).trans hw
    refine ⟨w, ?_, r, Or.inr rfl, hw⟩
    rcases hkind with rfl | rfl
    · exact hevalRight
    · rw [JoinKind.sharedKey, hcoalesce ((hl n).trans (lookup_nullRow hn.1)) hevalRight, if_pos rfl]

/-- The columns of the left side have the values that a row of the join has for them. -/
lemma exists_left_values {l : Row V} {leftList : List (String × Expr)} (hs : s.columnNames.Nodup)
    (hl : l.map Prod.fst = s.columnNames)
    (hlist : List.Forall₂ (fun n c => ∃ x, (Scope.ofSubquery s.last lhs).lookup n = .ok x ∧
      ((isSharedKey keys n = true ∧ ∃ y, (Scope.ofSubquery t.last rhs).lookup n = .ok y ∧
          c = (n, kind.sharedKey x y)) ∨
        (isSharedKey keys n = false ∧ c = (joinLabel s t keys "_x" n, x)))) s.columnNames leftList)
    (hshared : ∀ n, isSharedKey keys n = true → ∃ v,
      (kind.sharedKey (.labelled lhs n) (.labelled rhs n)).eval I env = some v ∧
        Contributed side n v)
    (henv : ∀ n, (Expr.labelled lhs n).eval I env = l.lookup n) :
    ∃ left, Select.evalColumns I leftList env = some left ∧
      List.Forall₂ (JoinedEntry s t keys side) l left := by
  rw [← hl, List.forall₂_map_left_iff] at hlist
  have hentries : List.Forall₂ (fun e c => ∃ r, JoinedEntry s t keys side e r ∧
      r.1 = c.1 ∧ c.2.eval I env = some r.2) l leftList := by
    refine forall₂_imp_mem hlist ?_
    rintro e he c ⟨x, hx, ⟨hkey, y, hy, rfl⟩ | ⟨hkey, rfl⟩⟩
    · obtain ⟨rfl, _⟩ := Scope.lookup_ofSubquery hx
      obtain ⟨rfl, _⟩ := Scope.lookup_ofSubquery hy
      obtain ⟨v, hv, hcontributed⟩ := hshared e.1 hkey
      have hlabel : joinLabel s t keys "_x" e.1 = e.1 :=
        QueryState.joinLabel_of_not_clashes (by simp [QueryState.clashes, hkey])
      exact ⟨(e.1, v), ⟨hlabel.symm, by rwa [if_pos hkey]⟩, rfl, hv⟩
    · obtain ⟨rfl, _⟩ := Scope.lookup_ofSubquery hx
      have hlookup : l.lookup e.1 = some e.2 := lookup_of_mem (hl ▸ hs) he
      exact ⟨(_, e.2), ⟨rfl, by simp [hkey]⟩, rfl, (henv e.1).trans hlookup⟩
  obtain ⟨left, hvalues, hcolumns⟩ := exists_forall₂ hentries
  exact ⟨left, Select.evalColumns_eq_some.2 hcolumns, hvalues⟩

/-- The columns of the right side have their own values. -/
lemma evalColumns_right {r : Row V} {rightList : List (String × Expr)} (ht : t.columnNames.Nodup)
    (hr : r.map Prod.fst = t.columnNames)
    (hlist : List.Forall₂ (fun n c => c.1 = joinLabel s t keys "_y" n ∧
      (Scope.ofSubquery t.last rhs).lookup n = .ok c.2)
      (t.columnNames.filter fun n => !isSharedKey keys n) rightList)
    (henv : ∀ n, (Expr.labelled rhs n).eval I env = r.lookup n) :
    Select.evalColumns I rightList env = some ((r.filter fun e => !isSharedKey keys e.1).map
      fun e => (joinLabel s t keys "_y" e.1, e.2)) := by
  rw [← hr, List.filter_map, List.forall₂_map_left_iff] at hlist
  rw [Select.evalColumns_eq_some, List.forall₂_map_right_iff]
  refine (forall₂_imp_mem hlist ?_).flip
  rintro e he c ⟨hlabel, hc⟩
  obtain ⟨hx, _⟩ := Scope.lookup_ofSubquery hc
  have hlookup : r.lookup e.1 = some e.2 :=
    lookup_of_mem (hr ▸ ht) (List.mem_of_mem_filter he)
  exact ⟨hlabel.symm, by rw [hx, henv, hlookup]⟩

end Rows

namespace QueryState

/-- The alias under which a join reads its left side. -/
def leftAlias (s t : QueryState) : TableAlias := ⟨"lhs", max s.aliases.next t.aliases.next⟩

/-- The alias under which a join reads its right side. -/
def rightAlias (s t : QueryState) : TableAlias := ⟨"rhs", max s.aliases.next t.aliases.next + 1⟩

end QueryState

/-- A join of two queries with distinct columns has, in some order, one row for each pair of rows
with equal keys and for each row without a partner that its kind keeps. -/
theorem joined_rows_of_kind [DecidableEq V] {I : Interpretation V} (hI : CoalescesNulls I)
    {s t u : QueryState} {keys : JoinKeys} {kind : JoinKind} (hs : s.columnNames.Nodup)
    (ht : t.columnNames.Nodup) (h : s.join t keys kind = .ok u)
    (contents : Select → TableAlias → List (Row V))
    (hleft : ∀ l ∈ contents s.last (s.leftAlias t), l.map Prod.fst = s.columnNames)
    (hright : ∀ r ∈ contents t.last (s.rightAlias t), r.map Prod.fst = t.columnNames) :
    ∃ rows, u.last.joinRows I contents = some rows ∧
      ∃ sides, sides.Perm (joinedSides I keys.toPairs kind (contents s.last (s.leftAlias t))
          (contents t.last (s.rightAlias t))) ∧
        List.Forall₂ (JoinedRow I s t keys.toPairs) sides rows := by
  have hkeys := fun n => QueryState.mem_columnNames_of_isSharedKey (n := n) h
  obtain ⟨_, lhs, rhs, _, _, condition, leftList, rightList, _, rfl, _, hlhs, hrhs, rfl, rfl,
    hcondition, hleftList, hrightList, rfl⟩ := QueryState.join_cases h
  obtain rfl : lhs = s.leftAlias t := hlhs
  obtain rfl : rhs = s.rightAlias t := hrhs
  have halias : s.leftAlias t ≠ s.rightAlias t := by
    simp [QueryState.leftAlias, QueryState.rightAlias]
  obtain ⟨sides, env, hperm, hrows, henv⟩ := exists_sides_of_joinStage kind
    (leftList ++ rightList) halias fun l hl r hr env henv =>
      holds_joinCondition hcondition (hleft l hl) (hright r hr) henv
  have hjoined : ∀ side ∈ sides, ∃ row,
      Select.evalColumns I (leftList ++ rightList) (env side) = some row ∧
        JoinedRow I s t keys.toPairs side row := by
    intro side hside
    have hmem := hperm.mem_iff.1 hside
    have hshared := fun n hn => eval_sharedKey hI hleft hright (hkeys n hn) hmem (henv side)
    obtain ⟨hl, hr⟩ := mem_of_mem_joinedSides hmem
    obtain ⟨left, hleftValues, hentries⟩ := exists_left_values hs
      (labels_getD_nullRow fun l h => hleft l (hl l h)) hleftList hshared (henv side).left
    have hrightValues := evalColumns_right ht
      (labels_getD_nullRow fun r h => hright r (hr r h)) hrightList (henv side).right
    refine ⟨_, ?_, left, hentries, rfl⟩
    rw [Select.evalColumns_eq_some] at hleftValues hrightValues ⊢
    exact List.rel_append hleftValues hrightValues
  obtain ⟨rows, hselected, hjoinedRows⟩ := exists_forall₂ (List.forall₂_same.2 hjoined)
  refine ⟨rows, ?_, sides, hperm, hjoinedRows⟩
  refine hrows.trans (selected_joinStage ?_)
  rwa [List.forall₂_map_left_iff]

/-- Integers and null, of which all but zero and null hold. -/
def nullableIntegers : Interpretation (Option Int) where
  literal
    | .int i => some i.toInt
    | .bool b => some b.toInt
    | _ => none
  and
    | some a, some b => some (if a ≠ 0 ∧ b ≠ 0 then 1 else 0)
    | some 0, none => some 0
    | none, some 0 => some 0
    | _, _ => none
  or
    | some a, some b => some (if a ≠ 0 ∨ b ≠ 0 then 1 else 0)
    | some a, none => if a ≠ 0 then some 1 else none
    | none, some b => if b ≠ 0 then some 1 else none
    | none, none => none
  not a := a.map fun i => if i = 0 then 1 else 0
  binary
    | "=", some a, some b => some (if a = b then 1 else 0)
    | _, _, _ => none
  isIn a l := a.bind fun i => if some i ∈ l then some 1 else if none ∈ l then none else some 0
  isNull a := some a.isNone.toInt
  isNotNull a := some a.isSome.toInt
  negate a := a.map Neg.neg
  call
    | "coalesce", l => l.findSome? id
    | _, _ => none
  case whens otherwise :=
    ((whens.find? fun w => w.1.any (· ≠ 0)).map Prod.snd).getD (otherwise.getD none)
  cast _ a := a
  holds a := a.any (· ≠ 0)
  holds_and a b := by
    cases a with
    | none => cases b with
      | none => rfl
      | some b => by_cases hb : b = 0 <;> simp [hb]
    | some a => cases b with
      | none => by_cases ha : a = 0 <;> simp [ha]
      | some b => by_cases ha : a = 0 <;> by_cases hb : b = 0 <;> simp [ha, hb]
  holds_always := rfl

/-- Two people on the left side of a join, and on the right side three, one of them in no group. -/
def peopleOfSide : Select → TableAlias → List (Row (Option Int))
  | _, ⟨"lhs", _⟩ => [[("g", some 1), ("x", some 3)], [("g", some 2), ("x", some 5)]]
  | _, _ => [[("g", some 1), ("x", some 7)], [("g", some 3), ("x", some 9)],
    [("g", none), ("x", some 4)]]

theorem people_joined_fully : ∃ u rows sides,
    (people .postgres).join (people .postgres) (.columns ["g"]) .full = .ok u ∧
    u.last.joinRows nullableIntegers peopleOfSide = some rows ∧
    sides.Perm [(some [("g", some 1), ("x", some 3)], some [("g", some 1), ("x", some 7)]),
      (some [("g", some 2), ("x", some 5)], none), (none, some [("g", some 3), ("x", some 9)]),
      (none, some [("g", none), ("x", some 4)])] ∧
    List.Forall₂ (JoinedRow nullableIntegers (people .postgres) (people .postgres) [("g", "g")])
      sides rows := by
  have hcoalesce : CoalescesNulls nullableIntegers := by
    intro a b
    cases a <;> cases b <;> rfl
  have hok : ((people .postgres).join (people .postgres) (.columns ["g"]) .full).isOk = true := by
    decide +kernel
  obtain ⟨u, hu⟩ := exists_eq_ok hok
  obtain ⟨rows, hrows, sides, hsides, hjoined⟩ := joined_rows_of_kind hcoalesce (by decide)
    (by decide) hu peopleOfSide (by decide) (by decide)
  exact ⟨u, rows, sides, hu, hrows, hsides, hjoined⟩

end PipelineSql
