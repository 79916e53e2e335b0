import PipelineSql.Proofs.Lookup
import PipelineSql.Proofs.Nesting
import PipelineSql.Proofs.RowSemantics

/-!
# Evaluating statements

A row that a statement selects holds, under each label, the value of the expression that the label
stands for. So a subquery can be put around a statement, and its select list can be exchanged for
another that is computed from the same rows.
-/

namespace PipelineSql

variable {V : Type}

lemma keepWhere_eq_filter {α : Type} {p : α → Option Bool} {b : α → Bool} {l : List α}
    (h : ∀ a ∈ l, p a = some (b a)) : keepWhere p l = some (l.filter b) := by
  induction l with
  | nil => rfl
  | cons a l ih =>
    have hrest := ih fun x hx => h x (List.mem_cons_of_mem _ hx)
    rw [keepWhere, h a List.mem_cons_self, hrest]
    cases hb : b a <;> simp [hb]

/-- Labels stay when what they stand for is mapped. -/
lemma mapM_labelled_eq_some {α : Type} {f : α → Option V} {l : List (String × α)} {row : Row V} :
    (l.mapM fun c => do return (c.1, ← f c.2)) = some row ↔
      List.Forall₂ (fun c r => r.1 = c.1 ∧ f c.2 = some r.2) l row := by
  have hentry : ∀ (c : String × α) (r : String × V),
      (do return (c.1, ← f c.2) : Option (String × V)) = some r ↔
        r.1 = c.1 ∧ f c.2 = some r.2 := by
    intro c r
    cases f c.2 with
    | none => simp
    | some v => simp [Prod.ext_iff, eq_comm]
  rw [mapM_eq_some]
  simp only [hentry]

lemma keepWhere_map {α β : Type} (f : α → β) (p : β → Option Bool) (l : List α) :
    keepWhere p (l.map f) = (keepWhere (fun a => p (f a)) l).map (List.map f) := by
  induction l with
  | nil => rfl
  | cons a l ih =>
    rw [List.map_cons, keepWhere, keepWhere, ih]
    cases p (f a) with
    | none => rfl
    | some keep =>
      cases keepWhere (fun a => p (f a)) l with
      | none => rfl
      | some kept => cases keep <;> rfl

/-- An injective map commutes with the removal of repetitions. -/
lemma eraseDups_map {α β : Type} [BEq α] [LawfulBEq α] [BEq β] [LawfulBEq β] {f : α → β}
    (l : List α) (h : ∀ a ∈ l, ∀ b ∈ l, f a = f b → a = b) : (l.map f).eraseDups = l.eraseDups.map f := by
  match l, h with
  | [], _ => rfl
  | a :: l, h =>
    have hfilter : l.filter ((fun y => !y == f a) ∘ f) = l.filter fun b => !b == a := by
      refine List.filter_congr ?_
      intro b hb
      have hiff : f b = f a ↔ b = a :=
        ⟨h b (List.mem_cons_of_mem _ hb) a List.mem_cons_self, congrArg f⟩
      simp [hiff]
    have hrest := eraseDups_map (l.filter fun b => !b == a) fun x hx y hy =>
      h x (List.mem_cons_of_mem _ (List.mem_of_mem_filter hx)) y
        (List.mem_cons_of_mem _ (List.mem_of_mem_filter hy))
    rw [List.map_cons, List.eraseDups_cons, List.eraseDups_cons, List.map_cons, List.filter_map,
      hfilter, hrest]
termination_by l.length
decreasing_by
  exact Nat.lt_succ_of_le (List.length_filter_le _ l)

namespace Sql

variable (I : Interpretation V)

namespace Expr

variable (env : Env V)

attribute [local simp] eval

@[simp] lemma evalList_eq (es : List Expr) : evalList I env es = es.mapM (eval I env) := by
  induction es with
  | nil => rfl
  | cons e es ih => rw [evalList, ih, List.mapM_cons]

@[simp] lemma evalWhens_eq (whens : List (Expr × Expr)) : evalWhens I env whens =
    whens.mapM fun w => do return (← w.1.eval I env, ← w.2.eval I env) := by
  induction whens with
  | nil => rfl
  | cons w whens ih =>
    rw [evalWhens, ih, List.mapM_cons]
    cases w.1.eval I env with
    | none => rfl
    | some c => cases w.2.eval I env <;> rfl

@[simp] lemma evalOption_eq (o : Option Expr) : evalOption I env o = o.mapM (eval I env) := by
  cases o with
  | none => rfl
  | some e => rw [evalOption, Option.mapM_some]; cases e.eval I env <;> rfl

/-- A conjunction holds exactly when each of its members does. -/
lemma holds_conjunction {es : List Expr} {vs : List V} (h : es.mapM (eval I env) = some vs) :
    ((conjunction es).eval I env).map I.holds = some (vs.all I.holds) := by
  have hfold : ∀ {es : List Expr} {vs : List V},
      List.Forall₂ (fun e v => e.eval I env = some v) es vs →
      ∀ {e : Expr} {v : V}, e.eval I env = some v →
        ((es.foldl .and e).eval I env).map I.holds = some (I.holds v && vs.all I.holds) := by
    intro es vs hes
    induction hes with
    | nil =>
      intro e v he
      simp [he]
    | @cons e' v' es vs he' _ ih =>
      intro e v he
      have hand : (Expr.and e e').eval I env = some (I.and v v') := by simp [he, he']
      rw [List.foldl_cons, ih hand, I.holds_and, List.all_cons, Bool.and_assoc]
  cases mapM_eq_some.1 h with
  | nil => simp [conjunction, always, I.holds_always]
  | cons he hes => exact hfold hes he

/-- Replacing an alias is the same as reading its columns from the other relation. -/
lemma eval_replaceAlias (old new : TableAlias) (e : Expr) :
    (e.replaceAlias old new).eval I env =
      e.eval I fun r => env (r.replaceAlias old new) := by
  unfold replaceAlias
  induction e using induct with
  | and l r hl hr | or l r hl hr | binary l _ r hl hr =>
    simp only [mapNodes, replaceAliasNode, eval, hl, hr]
  | not e he | isNull e he | isNotNull e he | negate e he | cast e _ he =>
    simp only [mapNodes, replaceAliasNode, eval, he]
  | isIn e es he hes =>
    have hmap : es.mapM (eval I env ∘ mapNodes (replaceAliasNode old new)) =
        es.mapM (eval I fun r => env (r.replaceAlias old new)) := mapM_congr hes
    simp only [mapNodes, replaceAliasNode, eval, evalList_eq, mapList_eq, List.mapM_map, he, hmap]
  | call f args hargs =>
    have hmap : args.mapM (eval I env ∘ mapNodes (replaceAliasNode old new)) =
        args.mapM (eval I fun r => env (r.replaceAlias old new)) := mapM_congr hargs
    simp only [mapNodes, replaceAliasNode, eval, evalList_eq, mapList_eq, List.mapM_map, hmap]
  | case whens otherwise hwhens hotherwise =>
    simp only [mapNodes, replaceAliasNode, eval, evalWhens_eq, mapWhens_eq, evalOption_eq,
      mapOption_eq, List.mapM_map]
    rw [mapM_congr (l := whens) (g := fun w => do
      return (← w.1.eval I fun r => env (r.replaceAlias old new),
        ← w.2.eval I fun r => env (r.replaceAlias old new)))]
    · cases otherwise with
      | none => rfl
      | some e => simp only [Option.map_some, Option.mapM_some, hotherwise e rfl]
    · intro w hw
      simp only [Function.comp_apply, (hwhens w hw).1, (hwhens w hw).2]
  | column r =>
    unfold mapNodes replaceAliasNode
    split
    · rename_i a label he
      cases he
      by_cases ha : a = old
      · simp [ha, labelled, ColumnRef.replaceAlias]
      · simp [ha, labelled, ColumnRef.replaceAlias]
    · rename_i hne
      simp only [eval]
      unfold ColumnRef.replaceAlias
      split
      · exact absurd rfl (hne _ _)
      · rfl
  | window f clause hf hpartition horder => rfl
  | value v | countAll => rfl
  | count e he | countDistinct e he => rfl

end Expr

namespace Select

variable {I}

lemma evalColumns_eq_some {columns : List (String × Expr)} {env : Env V} {row : Row V} :
    evalColumns I columns env = some row ↔
      List.Forall₂ (fun c r => r.1 = c.1 ∧ c.2.eval I env = some r.2) columns row :=
  mapM_labelled_eq_some

/-- A row is labelled as the select list is. -/
lemma labels_of_evalColumns {columns : List (String × Expr)} {env : Env V} {row : Row V}
    (h : evalColumns I columns env = some row) : row.map Prod.fst = columns.map Prod.fst :=
  map_fst_of_forall₂ (evalColumns_eq_some.1 h)

/-- Under a label, a row holds the value of what the label stands for. -/
lemma lookup_of_evalColumns {columns : List (String × Expr)} {env : Env V} {row : Row V}
    (h : evalColumns I columns env = some row) {n : String} {x : Expr}
    (hx : columns.lookup n = some x) : ∃ v, row.lookup n = some v ∧ x.eval I env = some v := by
  have hrow := evalColumns_eq_some.1 h
  clear h
  induction hrow with
  | nil => simp at hx
  | @cons c r columns row hc _ ih =>
    obtain ⟨k, e⟩ := c
    obtain ⟨k', v⟩ := r
    obtain ⟨rfl, hv⟩ := hc
    rw [List.lookup_cons] at hx ⊢
    cases hn : n == k' with
    | true =>
      simp only [hn, Option.some.injEq] at hx
      exact ⟨v, rfl, hx ▸ hv⟩
    | false =>
      simp only [hn] at hx
      exact ih hx

lemma evalColumns_putEntry {columns : List (String × Expr)} {env : Env V} {row : Row V}
    {name : String} {x : Expr} {v : V} (h : evalColumns I columns env = some row)
    (hx : x.eval I env = some v) :
    evalColumns I (putEntry name x columns) env = some (putEntry name v row) := by
  have hrow := evalColumns_eq_some.1 h
  clear h
  rw [evalColumns_eq_some]
  induction hrow with
  | nil => exact .cons ⟨rfl, hx⟩ .nil
  | @cons c r columns row hc hrest ih =>
    obtain ⟨k, e⟩ := c
    obtain ⟨k', w⟩ := r
    obtain ⟨rfl, hw⟩ := hc
    by_cases hk : k' = name
    · simp only [putEntry, hk, if_true]
      exact .cons ⟨rfl, hx⟩ hrest
    · simp only [putEntry, hk, if_false]
      exact .cons ⟨rfl, hw⟩ ih

lemma columns_throughSubquery (q : Select) (a : TableAlias) :
    (q.throughSubquery a).columns = q.columnNames.map fun n => (n, .labelled a n) := by
  simp [throughSubquery, reading, columnNames, Function.comp_def]

lemma nodup_throughSubquery {q : Select} (h : q.columnNames.Nodup) (a : TableAlias) :
    (q.throughSubquery a).columnNames.Nodup := by
  rwa [columnNames_throughSubquery]

/-- A select list that takes every column of a subquery gives the rows of the subquery. -/
lemma evalColumns_throughSubquery {q : Select} {a : TableAlias} {row : Row V}
    (hlabels : row.map Prod.fst = q.columnNames) (hnodup : q.columnNames.Nodup) :
    evalColumns I (q.throughSubquery a).columns (rowEnv a row) = some row := by
  have hcolumns : (q.throughSubquery a).columns =
      row.map fun r => (r.1, Expr.labelled a r.1) := by
    rw [columns_throughSubquery, ← hlabels, List.map_map]
    rfl
  rw [hcolumns, evalColumns_eq_some, List.forall₂_map_left_iff, List.forall₂_same]
  intro r hr
  refine ⟨rfl, ?_⟩
  have hlookup : row.lookup r.1 = some r.2 := lookup_of_mem (hlabels ▸ hnodup) hr
  simpa [Expr.labelled, Expr.eval, rowEnv, ColumnRef.table, ColumnRef.name] using hlookup

variable [DecidableEq V] (I) (db : TableRef → List (String → V))

lemma rows_eq (q : Select) : q.rows I db =
    if q.isRowWise then (sourceRows I db q.source).bind (q.selected I) else none := by
  cases q
  rfl

lemma mem_of_mem_cut {q : Select} {rows : List (Row V)} {row : Row V} (h : row ∈ q.cut rows) :
    row ∈ rows := by
  unfold cut at h
  have hrest : row ∈ (if q.distinct then rows.eraseDups else rows) := by
    cases hlimit : q.limit with
    | none =>
      rw [hlimit] at h
      exact List.mem_of_mem_drop h
    | some n =>
      rw [hlimit] at h
      exact List.mem_of_mem_drop (List.mem_of_mem_take h)
  split at hrest
  · exact List.mem_eraseDups.1 hrest
  · exact hrest

lemma cut_of_changesRowSet {q : Select} (h : q.changesRowSet = false) (rows : List (Row V)) :
    q.cut rows = rows := by
  simp only [changesRowSet, Bool.or_eq_false_iff, Option.isSome_eq_false_iff,
    Option.isNone_iff_eq_none] at h
  obtain ⟨⟨hdistinct, hlimit⟩, hoffset⟩ := h
  simp [cut, hdistinct, hlimit, hoffset]

/-- The rows of the source that meet the condition. -/
def matching (q : Select) : Option (List (Env V)) :=
  (sourceRows I db q.source).bind
    (keepWhere fun env => (q.condition.eval I env).map I.holds)

variable {I db}

/-- A statement has rows when it works row by row and its select list has a value on every row
that meets the condition. -/
lemma rows_eq_some {q : Select} {out : List (Row V)} : q.rows I db = some out ↔
    q.isRowWise = true ∧ ∃ envs raw, q.matching I db = some envs ∧
      List.Forall₂ (fun env row => evalColumns I q.columns env = some row) envs raw ∧
      out = q.cut raw := by
  rw [rows_eq]
  cases hrow : q.isRowWise with
  | false => simp
  | true =>
    cases hsource : sourceRows I db q.source with
    | none => simp [matching, hsource]
    | some envs =>
      simp only [matching, selected, hsource, if_true, Option.bind_some, Option.bind_eq_bind,
        Option.bind_eq_some_iff, mapM_eq_some, Option.pure_def, Option.some.injEq, true_and]
      constructor
      · rintro ⟨kept, hkept, raw, hraw, rfl⟩
        exact ⟨kept, raw, hkept, hraw, rfl⟩
      · rintro ⟨kept, raw, hkept, hraw, rfl⟩
        exact ⟨kept, hkept, raw, hraw, rfl⟩

/-- The label of every row of a statement. -/
lemma labels_of_rows {q : Select} {out : List (Row V)} (h : q.rows I db = some out) :
    ∀ row ∈ out, row.map Prod.fst = q.columnNames := by
  obtain ⟨_, envs, raw, _, hraw, rfl⟩ := rows_eq_some.1 h
  intro row hrow
  have hmem : row ∈ raw := mem_of_mem_cut hrow
  obtain ⟨env, _, heval⟩ := exists_of_forall₂ hraw hmem
  exact labels_of_evalColumns heval

/-- A condition that always holds keeps every row of the source. -/
lemma matching_of_always {q : Select} (hcondition : q.condition = .always) {envs : List (Env V)}
    (hsource : sourceRows I db q.source = some envs) : q.matching I db = some envs := by
  have halways : ∀ env ∈ envs, (Expr.always.eval I env).map I.holds = some true := by
    intro env _
    simp [Expr.always, Expr.eval, I.holds_always]
  rw [matching, hsource, hcondition, Option.bind_some, keepWhere_eq_filter halways,
    List.filter_true]

/-- A condition on the rows of a subquery keeps those that meet it. -/
lemma rows_throughSubquery_where {q : Select} {out : List (Row V)} (hq : q.rows I db = some out)
    (hnodup : q.columnNames.Nodup) (a : TableAlias) (condition : Expr) {b : Row V → Bool}
    (hcondition : ∀ row ∈ out, (condition.eval I (rowEnv a row)).map I.holds = some (b row)) :
    ({ q.throughSubquery a with condition } : Select).rows I db = some (out.filter b) := by
  refine rows_eq_some.2 ⟨rfl, (out.filter b).map (rowEnv a), out.filter b, ?_, ?_, ?_⟩
  · have hsource : sourceRows I db (q.throughSubquery a).source = some (out.map (rowEnv a)) := by
      simp only [throughSubquery, reading, sourceRows, hq, Option.map_some]
    simp only [matching, hsource, Option.bind_some, keepWhere_map, keepWhere_eq_filter hcondition,
      Option.map_some]
  · rw [List.forall₂_map_left_iff, List.forall₂_same]
    intro row hrow
    exact evalColumns_throughSubquery (labels_of_rows hq row (List.mem_of_mem_filter hrow)) hnodup
  · rfl

lemma rows_throughSubquery {q : Select} {out : List (Row V)} (hq : q.rows I db = some out)
    (hnodup : q.columnNames.Nodup) (a : TableAlias) :
    (q.throughSubquery a).rows I db = some out := by
  have halways : ∀ row ∈ out, (Expr.always.eval I (rowEnv a row)).map I.holds = some true := by
    intro row _
    simp [Expr.always, Expr.eval, I.holds_always]
  have hrows := rows_throughSubquery_where hq hnodup a .always halways
  rwa [List.filter_true] at hrows

/-- A statement cuts rows at the same places after an injective change of all rows. -/
lemma cut_map {q : Select} {f : Row V → Row V} {raw : List (Row V)}
    (h : ∀ a ∈ raw, ∀ b ∈ raw, f a = f b → a = b) : q.cut (raw.map f) = (q.cut raw).map f := by
  have hdistinct : (if q.distinct then (raw.map f).eraseDups else raw.map f) =
      (if q.distinct then raw.eraseDups else raw).map f := by
    split
    · exact eraseDups_map raw h
    · rfl
  unfold cut
  simp only [hdistinct]
  cases q.limit with
  | none => exact List.map_drop.symm
  | some n => simp only [Option.elim_some, List.map_drop, List.map_take]

/-- Where rows may repeat, a statement cuts two lists of rows at the same places. -/
lemma forall₂_cut {R : Row V → Row V → Prop} {q : Select} (hdistinct : q.distinct = false)
    {raw raw' : List (Row V)} (h : List.Forall₂ R raw raw') :
    List.Forall₂ R (q.cut raw) (q.cut raw') := by
  unfold cut
  simp only [hdistinct, Bool.false_eq_true, if_false]
  cases q.limit with
  | none => exact List.forall₂_drop _ h
  | some n => exact List.forall₂_take _ (List.forall₂_drop _ h)

/-- Another select list over the same rows of the source, computed from the rows selected so far. -/
lemma rows_edit {q r : Select} {out : List (Row V)} {g : Row V → Option (Row V)}
    (hq : q.rows I db = some out) (hrow : r.isRowWise = q.isRowWise)
    (hmatching : r.matching I db = q.matching I db)
    (hcolumns : ∀ env row, evalColumns I q.columns env = some row →
      ∃ row', evalColumns I r.columns env = some row' ∧ g row = some row') :
    ∃ raw raw', out = q.cut raw ∧ (∀ row ∈ raw, row.map Prod.fst = q.columnNames) ∧
      raw.mapM g = some raw' ∧ r.rows I db = some (r.cut raw') := by
  obtain ⟨hwise, envs, raw, hmatch, hraw, rfl⟩ := rows_eq_some.1 hq
  have hlabels : ∀ row ∈ raw, row.map Prod.fst = q.columnNames := by
    intro row hmem
    obtain ⟨env, _, heval⟩ := exists_of_forall₂ hraw hmem
    exact labels_of_evalColumns heval
  -- Both select lists are computed on the same rows of the source.
  have hboth := hraw.imp hcolumns
  obtain ⟨raw', hraw', hgs⟩ := exists_forall₂ hboth
  have hr : r.rows I db = some (r.cut raw') :=
    rows_eq_some.2 ⟨hrow.trans hwise, envs, raw', hmatching.trans hmatch, hraw', rfl⟩
  exact ⟨raw, raw', rfl, hlabels, mapM_eq_some.2 hgs, hr⟩

/-- The same where rows may repeat: the new rows are computed from the old ones. -/
lemma rows_edit_mapM {q r : Select} {out : List (Row V)} {g : Row V → Option (Row V)}
    (hq : q.rows I db = some out) (hdistinct : q.distinct = false) (hrow : r.isRowWise = q.isRowWise)
    (hmatching : r.matching I db = q.matching I db)
    (hcut : ∀ raw : List (Row V), r.cut raw = q.cut raw)
    (hcolumns : ∀ env row, evalColumns I q.columns env = some row →
      ∃ row', evalColumns I r.columns env = some row' ∧ g row = some row') :
    ∃ out', out.mapM g = some out' ∧ r.rows I db = some out' := by
  obtain ⟨raw, raw', rfl, _, hg, hr⟩ := rows_edit hq hrow hmatching hcolumns
  refine ⟨q.cut raw', mapM_eq_some.2 (forall₂_cut hdistinct (mapM_eq_some.1 hg)), ?_⟩
  rw [hr, hcut]

end Select

end Sql

end PipelineSql
