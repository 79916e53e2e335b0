import PipelineSql.Proofs.AmbiguousColumns
import PipelineSql.Proofs.GroupCompilation
import PipelineSql.Proofs.RowPipelines

/-!
# Summaries of row-wise pipelines

A summary either aggregates the current statement or reads it through a subquery. Either way the
rows that are grouped are the rows of the pipeline before it, so each group of the statement is a
group of these rows, and each aggregate is taken over them.
-/

namespace PipelineSql

open Sql (Expr Select TableRef groupEnv)
open Sql.Select

section Groups

variable {κ α β : Type} [DecidableEq κ]

lemma mem_groupsOf {l : List (κ × α)} {g : κ × List α} : g ∈ groupsOf l ↔
    g.1 ∈ l.map Prod.fst ∧ g.2 = (l.filter fun m => m.1 = g.1).map Prod.snd := by
  rw [groupsOf, List.mem_map]
  constructor
  · rintro ⟨k, hk, rfl⟩
    exact ⟨List.mem_eraseDups.1 hk, rfl⟩
  · rintro ⟨hk, hmembers⟩
    exact ⟨g.1, List.mem_eraseDups.2 hk, Prod.ext rfl hmembers.symm⟩

lemma nodup_eraseDups : ∀ l : List κ, l.eraseDups.Nodup
  | [] => by simp
  | a :: l => by
    rw [List.eraseDups_cons, List.nodup_cons]
    exact ⟨by simp, nodup_eraseDups _⟩
termination_by l => l.length
decreasing_by exact Nat.lt_succ_of_le (List.length_filter_le _ l)

lemma nodup_keys_groupsOf (l : List (κ × α)) : ((groupsOf l).map Prod.fst).Nodup := by
  rw [groupsOf, List.map_map]
  simpa [Function.comp_def] using nodup_eraseDups (l.map Prod.fst)

/-- Lists that are related member by member, under the same keys, have related groups. -/
lemma forall₂_groupsOf {R : α → β → Prop} {l : List (κ × α)} {l' : List (κ × β)}
    (h : List.Forall₂ (fun a b => a.1 = b.1 ∧ R a.2 b.2) l l') :
    List.Forall₂ (fun g g' => g.1 = g'.1 ∧ List.Forall₂ R g.2 g'.2) (groupsOf l) (groupsOf l') := by
  have hkeys : l.map Prod.fst = l'.map Prod.fst := by
    induction h with
    | nil => rfl
    | cons hab _ ih => rw [List.map_cons, List.map_cons, hab.1, ih]
  have hmembers : ∀ k, List.Forall₂ R ((l.filter fun m => m.1 = k).map Prod.snd)
      ((l'.filter fun m => m.1 = k).map Prod.snd) := by
    intro k
    induction h with
    | nil => exact .nil
    | @cons a b l l' hab _ ih =>
      simp only [List.map_cons, List.cons.injEq] at hkeys
      have hb : b.1 = a.1 := hab.1.symm
      by_cases hk : a.1 = k
      · rw [List.filter_cons_of_pos (by simpa using hk),
          List.filter_cons_of_pos (by simpa [hb] using hk)]
        exact .cons hab.2 (ih hkeys.2)
      · rw [List.filter_cons_of_neg (by simpa using hk),
          List.filter_cons_of_neg (by simpa [hb] using hk)]
        exact ih hkeys.2
  rw [groupsOf, groupsOf, ← hkeys, List.forall₂_map_left_iff, List.forall₂_map_right_iff,
    List.forall₂_same]
  exact fun k _ => ⟨rfl, hmembers k⟩

end Groups

section Keys

variable {κ α β : Type} [DecidableEq κ] {key : α → Option κ} {l : List α}
  {groups : List (κ × List α)}

lemma groupsBy_eq_some : groupsBy key l = some groups ↔ ∃ keyed : List (κ × α),
    List.Forall₂ (fun a m => key a = some m.1 ∧ m.2 = a) l keyed ∧ groups = groupsOf keyed := by
  have hentry : ∀ (a : α) (m : κ × α), (do return (← key a, a) : Option (κ × α)) = some m ↔
      key a = some m.1 ∧ m.2 = a := by
    intro a m
    cases key a with
    | none => simp
    | some k => simp [Prod.ext_iff, eq_comm]
  rw [groupsBy, Option.bind_eq_bind, Option.bind_eq_some_iff]
  simp only [mapM_eq_some, hentry]
  refine exists_congr fun keyed => and_congr_right fun _ => ?_
  rw [Option.pure_def, Option.some.injEq, eq_comm]

/-- A group has all members of its key, and there are some. -/
lemma members_of_groupsBy (h : groupsBy key l = some groups) {g : κ × List α} (hg : g ∈ groups) :
    g.2 ≠ [] ∧ g.2 = l.filter fun a => key a = some g.1 := by
  obtain ⟨keyed, hkeyed, rfl⟩ := groupsBy_eq_some.1 h
  obtain ⟨hkey, hmembers⟩ := mem_groupsOf.1 hg
  constructor
  · obtain ⟨m, hm, hk⟩ := List.mem_map.1 hkey
    rw [hmembers]
    refine List.ne_nil_of_mem (List.mem_map_of_mem (List.mem_filter.2 ⟨hm, ?_⟩))
    exact decide_eq_true hk
  · rw [hmembers]
    clear h hg hkey hmembers
    induction hkeyed with
    | nil => rfl
    | @cons a m l keyed ha _ ih =>
      have hiff : key a = some g.1 ↔ m.1 = g.1 := by simp [ha.1]
      by_cases hk : m.1 = g.1
      · rw [List.filter_cons_of_pos (by simpa using hk),
          List.filter_cons_of_pos (by simpa using hiff.2 hk), List.map_cons, ha.2, ih]
      · rw [List.filter_cons_of_neg (by simpa using hk),
          List.filter_cons_of_neg (by simpa using mt hiff.1 hk), ih]

/-- There is one group for each key that occurs. -/
lemma keys_of_groupsBy (h : groupsBy key l = some groups) :
    (groups.map Prod.fst).Nodup ∧ ∀ k, k ∈ groups.map Prod.fst ↔ ∃ a ∈ l, key a = some k := by
  obtain ⟨keyed, hkeyed, rfl⟩ := groupsBy_eq_some.1 h
  refine ⟨nodup_keys_groupsOf keyed, fun k => ?_⟩
  have hkeys : k ∈ (groupsOf keyed).map Prod.fst ↔ k ∈ keyed.map Prod.fst := by
    simp [groupsOf, Function.comp_def]
  rw [hkeys, List.mem_map]
  constructor
  · rintro ⟨m, hm, rfl⟩
    obtain ⟨a, ha, hkey, _⟩ := exists_of_forall₂ hkeyed hm
    exact ⟨a, ha, hkey⟩
  · rintro ⟨a, ha, hkey⟩
    obtain ⟨m, hm, hkey', _⟩ := exists_of_forall₂ hkeyed.flip ha
    exact ⟨m, hm, Option.some.inj (hkey'.symm.trans hkey)⟩

/-- Lists that are related member by member, under the same keys, have related groups. -/
lemma exists_groupsBy {key' : β → Option κ} {l' : List β} {R : α → β → Prop}
    (h : List.Forall₂ R l l')
    (hkey : ∀ a b, R a b → ∃ k, key a = some k ∧ key' b = some k) :
    ∃ groups groups', groupsBy key l = some groups ∧ groupsBy key' l' = some groups' ∧
      List.Forall₂ (fun g g' => g.1 = g'.1 ∧ List.Forall₂ R g.2 g'.2) groups groups' := by
  have hkeyed : ∃ (keyed : List (κ × α)) (keyed' : List (κ × β)),
      List.Forall₂ (fun a m => key a = some m.1 ∧ m.2 = a) l keyed ∧
      List.Forall₂ (fun b m => key' b = some m.1 ∧ m.2 = b) l' keyed' ∧
      List.Forall₂ (fun m m' => m.1 = m'.1 ∧ R m.2 m'.2) keyed keyed' := by
    induction h with
    | nil => exact ⟨[], [], .nil, .nil, .nil⟩
    | @cons a b l l' hab _ ih =>
      obtain ⟨keyed, keyed', hk, hk', hR⟩ := ih
      obtain ⟨k, ha, hb⟩ := hkey a b hab
      exact ⟨(k, a) :: keyed, (k, b) :: keyed', .cons ⟨ha, rfl⟩ hk, .cons ⟨hb, rfl⟩ hk',
        .cons ⟨rfl, hab⟩ hR⟩
  obtain ⟨keyed, keyed', hk, hk', hR⟩ := hkeyed
  exact ⟨_, _, groupsBy_eq_some.2 ⟨keyed, hk, rfl⟩, groupsBy_eq_some.2 ⟨keyed', hk', rfl⟩,
    forall₂_groupsOf hR⟩

end Keys

variable {V : Type} {A : Aggregates V} {I : Interpretation V} {dialect : Dialect}

/-- A column that is grouped by has in a group the value that it has on any row of the group. -/
lemma evalGroup_of_isColumn {x : Expr} {groupBy : List Expr} {key : List V} {env : Sql.Env V}
    (hcolumn : x.isColumn = true) (hx : x ∈ groupBy)
    (hkey : groupBy.mapM (Expr.eval I env) = some key) (members : List (Sql.Env V)) :
    x.evalGroup A I (groupEnv groupBy key) members = x.eval I env := by
  obtain ⟨c, rfl⟩ : ∃ c, x = .column c := by
    cases x <;> simp_all [Expr.isColumn]
  have hvalues := mapM_eq_some.1 hkey
  rw [Expr.evalGroup, Expr.eval]
  clear hkey
  induction hvalues with
  | nil => cases hx
  | @cons e v groupBy key he _ ih =>
    rw [groupEnv, List.zip_cons_cons, List.findSome?_cons]
    by_cases hc : e = .column c
    · subst hc
      simpa [Sql.groupValue?, Expr.eval, eq_comm] using he
    · have hnone : Sql.groupValue? c (e, v) = none := by
        cases e with
        | column d => simpa [Sql.groupValue?] using hc
        | _ => rfl
      rw [hnone]
      exact ih ((List.mem_cons.1 hx).resolve_left (Ne.symm hc))

variable [DecidableEq V] {db : TableRef → List (String → V)}

lemma groupedRows_eq_some {q : Select} {envs : List (Sql.Env V)}
    {groups : List (List V × List (Sql.Env V))} {rows : List (Row V)} (hgrouped : q.isGrouped = true)
    (hmatching : q.matching I db = some envs)
    (hgroups : groupsBy (fun env => q.groupBy.mapM (Expr.eval I env)) envs = some groups)
    (hrows : List.Forall₂ (fun g row =>
      evalGroupColumns A I q.columns (groupEnv q.groupBy g.1) g.2 = some row) groups rows) :
    q.groupedRows A I db = some (q.cut rows) := by
  simp [groupedRows, hgrouped, hmatching, hgroups, mapM_eq_some.2 hrows]

/-- The parts of a summary: a statement that computes a relation, of which the grouping columns and
everything that is read are columns, and the compiled select list. -/
structure Summarizes (I : Interpretation V) (db : TableRef → List (String → V)) (dialect : Dialect)
    (base : Select) (r : Relation V) (groups : List String)
    (columns : List (String × ColumnExpr)) (grouped aggregates : List (String × Expr)) : Prop where
  computes : Computes I db base r
  keepsRows : base.changesRowSet = false
  nodup : groups.Nodup
  project : (Scope.ofSelectList base).project groups = .ok grouped
  compiled : List.Forall₂ (fun c a => a.1 = c.1 ∧
    CompileEnv.compileExpr ⟨.builtIn dialect, .ofSelectList base, {}⟩ .aggregate c.2.shape =
      .ok a.2) columns aggregates
  isColumn : ∀ n ∈ columns.flatMap (fun c => c.2.shape.reads) ++ groups, ∀ x,
    (Scope.ofSelectList base).lookup n = .ok x → x.isColumn = true

namespace Summarizes

variable {base : Select} {r : Relation V} {groups : List String}
  {columns : List (String × ColumnExpr)} {grouped aggregates : List (String × Expr)}
  {env : Sql.Env V} {row : Row V} {key : List V}

/-- The rows of the source that meet the condition are those of the relation. -/
lemma matching (h : Summarizes I db dialect base r groups columns grouped aggregates) :
    ∃ envs, base.matching I db = some envs ∧
      List.Forall₂ (fun env row => evalColumns I base.columns env = some row) envs r.rows := by
  obtain ⟨_, envs, raw, hmatching, hraw, hrows⟩ := rows_eq_some.1 h.computes.rows
  rw [cut_of_changesRowSet h.keepsRows] at hrows
  exact ⟨envs, hmatching, hrows ▸ hraw⟩

/-- A row of the source and the row that is selected from it are in groups of the same key. -/
lemma exists_key (h : Summarizes I db dialect base r groups columns grouped aggregates)
    (hrow : evalColumns I base.columns env = some row) :
    ∃ key, (grouped.map Prod.snd).mapM (Expr.eval I env) = some key ∧
      row.values groups = some key := by
  obtain ⟨rfl, hlookup⟩ := Scope.project_eq_ok.1 h.project
  have hboth : List.Forall₂ (fun c d => ∃ v, c.2.eval I env = some v ∧ row.lookup d.1 = some v)
      grouped grouped := by
    rw [List.forall₂_same]
    intro c hc
    obtain ⟨v, hv, heval⟩ := lookup_of_evalColumns hrow (h.computes.lookup (hlookup c hc))
    exact ⟨v, heval, hv⟩
  obtain ⟨key, hkey, hvalues⟩ := exists_forall₂ hboth
  exact ⟨key, mapM_eq_some.2 (List.forall₂_map_left_iff.2 hkey),
    mapM_eq_some.2 (List.forall₂_map_left_iff.2 hvalues)⟩

/-- The grouping columns, with the values of a key. -/
lemma evalColumns_grouped (h : Summarizes I db dialect base r groups columns grouped aggregates)
    (hkey : (grouped.map Prod.snd).mapM (Expr.eval I env) = some key) :
    evalColumns I grouped env = some (groups.zip key) := by
  obtain ⟨rfl, hlookup⟩ := Scope.project_eq_ok.1 h.project
  have hvalues := List.forall₂_map_left_iff.1 (mapM_eq_some.1 hkey)
  rw [evalColumns_eq_some]
  clear h hkey hlookup
  induction hvalues with
  | nil => exact .nil
  | cons hv _ ih => exact .cons ⟨rfl, hv⟩ ih

lemma isColumn_grouped (h : Summarizes I db dialect base r groups columns grouped aggregates)
    {c : String × Expr} (hc : c ∈ grouped) : c.2.isColumn = true := by
  obtain ⟨hnames, hlookup⟩ := Scope.project_eq_ok.1 h.project
  refine h.isColumn c.1 (List.mem_append_right _ ?_) c.2 (hlookup c hc)
  rw [← hnames]
  exact List.mem_map_of_mem hc

/-- In a group, the grouping columns have the values of its key. -/
lemma evalGroupColumns_grouped
    (h : Summarizes I db dialect base r groups columns grouped aggregates)
    (hkey : (grouped.map Prod.snd).mapM (Expr.eval I env) = some key)
    (members : List (Sql.Env V)) :
    evalGroupColumns A I grouped (groupEnv (grouped.map Prod.snd) key) members =
      some (groups.zip key) := by
  refine mapM_labelled_eq_some.2 ?_
  refine forall₂_imp_mem (evalColumns_eq_some.1 (h.evalColumns_grouped hkey)) ?_
  rintro c hc v ⟨hname, heval⟩
  refine ⟨hname, ?_⟩
  rw [evalGroup_of_isColumn (h.isColumn_grouped hc) (List.mem_map_of_mem hc) hkey]
  exact heval

section Group

variable {envs : List (Sql.Env V)} {rows : List (Row V)}
  (hrows : List.Forall₂ (fun env row => evalColumns I base.columns env = some row) envs rows)
  (hne : envs ≠ [])
  (hkeys : ∀ env ∈ envs, (grouped.map Prod.snd).mapM (Expr.eval I env) = some key)

include hrows hne hkeys

/-- What a new column reads has the values of the group and of its rows. -/
lemma readsGroup (h : Summarizes I db dialect base r groups columns grouped aggregates)
    {c : String × ColumnExpr} (hc : c ∈ columns) :
    ReadsGroup A I (Scope.ofSelectList base) groups (groupEnv (grouped.map Prod.snd) key) envs
      (groups.zip key) rows c.2.shape.reads where
  members := by
    refine hrows.imp ?_
    intro env row hrow n hn x hx
    refine ⟨h.isColumn n (List.mem_append_left _ (List.mem_flatMap.2 ⟨c, hc, hn⟩)) x hx, ?_⟩
    exact lookup_of_evalColumns hrow (h.computes.lookup hx)
  keys := by
    intro n hn x hx
    obtain ⟨env, henv⟩ := List.exists_mem_of_ne_nil envs hne
    obtain ⟨hnames, hlookup⟩ := Scope.project_eq_ok.1 h.project
    obtain ⟨c, hc, rfl⟩ := List.mem_map.1 (hnames ▸ hn)
    obtain rfl : c.2 = x := Except.ok.inj ((hlookup c hc).symm.trans hx)
    have hentry : grouped.lookup c.1 = some c.2 := lookup_of_mem (hnames ▸ h.nodup) hc
    obtain ⟨v, hv, heval⟩ :=
      lookup_of_evalColumns (h.evalColumns_grouped (hkeys env henv)) hentry
    refine ⟨h.isColumn_grouped hc, v, hv, ?_⟩
    rw [evalGroup_of_isColumn (h.isColumn_grouped hc) (List.mem_map_of_mem hc) (hkeys env henv)]
    exact heval

/-- The select list gives the row of the group. -/
lemma exists_summary (h : Summarizes I db dialect base r groups columns grouped aggregates)
    (hsummary : ∀ c ∈ columns, c.2.shape.isSummary dialect groups = true) :
    ∃ out, evalGroupColumns A I (grouped ++ aggregates)
        (groupEnv (grouped.map Prod.snd) key) envs = some out ∧
      Row.summary A I dialect columns (groups.zip key) rows = some out := by
  have hboth : List.Forall₂ (fun c a => ∃ v : String × V,
      (v.1 = c.1 ∧ c.2.shape.denoteGroup A I dialect (groups.zip key) rows = some v.2) ∧
      v.1 = a.1 ∧ a.2.evalGroup A I (groupEnv (grouped.map Prod.snd) key) envs = some v.2)
      columns aggregates := by
    refine forall₂_imp_mem h.compiled ?_
    rintro c hc a ⟨hname, hcompile⟩
    obtain ⟨⟨x, found⟩, hrun, hx⟩ := map_eq_ok.1 hcompile
    have hreads := h.readsGroup (A := A) hrows hne hkeys hc
    obtain ⟨_, hvalue⟩ := (groupValueCases (A := A) (I := I) rfl groups
      (groupEnv (grouped.map Prod.snd) key) envs (groups.zip key) rows).compileFrom _ hrun
    obtain ⟨_, hvalue⟩ := hvalue (hsummary c hc)
    obtain ⟨v, hdenote, hstands⟩ := hvalue hreads
    exact ⟨(c.1, v), ⟨rfl, hdenote⟩, hname.symm, hx ▸ hstands.1⟩
  obtain ⟨values, hcolumns, haggregates⟩ := exists_forall₂ hboth
  obtain ⟨env, henv⟩ := List.exists_mem_of_ne_nil envs hne
  have hgrouped := h.evalGroupColumns_grouped (A := A) (hkeys env henv) envs
  refine ⟨groups.zip key ++ values, ?_, ?_⟩
  · rw [evalGroupColumns] at hgrouped ⊢
    rw [List.mapM_append, hgrouped, mapM_labelled_eq_some.2 haggregates]
    rfl
  · have hvalues := (mapM_labelled_eq_some (f := fun e : ColumnExpr =>
      e.shape.denoteGroup A I dialect (groups.zip key) rows)).2 hcolumns
    rw [Row.summary, hvalues]
    rfl

end Group

/-- The row of a group has the values of its key. -/
lemma values_of_summary (h : Summarizes I db dialect base r groups columns grouped aggregates)
    (hkey : (grouped.map Prod.snd).mapM (Expr.eval I env) = some key) {rows : List (Row V)}
    {out : Row V} (hout : Row.summary A I dialect columns (groups.zip key) rows = some out) :
    out.values groups = some key := by
  have hnames := (Scope.project_eq_ok.1 h.project).1
  have hnodup : ((groups.zip key).map Prod.fst).Nodup := by
    rw [labels_of_evalColumns (h.evalColumns_grouped hkey), hnames]
    exact h.nodup
  obtain ⟨values, _, rfl⟩ : ∃ values, _ ∧ groups.zip key ++ values = out := by
    simpa [Row.summary, Option.bind_eq_some_iff] using hout
  have hlength : groups.length = key.length := by
    rw [← hnames]
    simpa using (mapM_eq_some.1 hkey).length_eq
  refine mapM_eq_some.2 (List.forall₂_iff_zip.2 ⟨hlength, ?_⟩)
  intro n v hmem
  rw [List.lookup_append, lookup_of_mem hnodup hmem]
  rfl

/-- The statement that a summary makes. -/
def stage (base : Select) (grouped aggregates : List (String × Expr)) : Select :=
  { base with
    orderBy := []
    columns := grouped ++ aggregates
    groupBy := grouped.map Prod.snd }

lemma isGrouped_stage (h : Summarizes I db dialect base r groups columns grouped aggregates)
    (hne : groups ≠ []) : (stage base grouped aggregates).isGrouped = true := by
  have hwise := (rows_eq_some.1 h.computes.rows).1
  have hnil : grouped ≠ [] := by
    rintro rfl
    exact hne (Scope.project_eq_ok.1 h.project).1.symm
  simp only [isRowWise, Bool.and_eq_true] at hwise
  simp [isGrouped, stage, hwise.1.1, hnil]

/-- The statement of a summary gives the summary of the relation. -/
lemma groupedRows (h : Summarizes I db dialect base r groups columns grouped aggregates)
    (hne : groups ≠ []) (hsummary : ∀ c ∈ columns, c.2.shape.isSummary dialect groups = true)
    (A : Aggregates V) : ∃ rows, (stage base grouped aggregates).groupedRows A I db = some rows ∧
      SummaryRows A I dialect groups columns r.rows rows := by
  obtain ⟨envs, hmatching, hrows⟩ := h.matching
  obtain ⟨members, members', hmembers, hmembers', hgroups⟩ :=
    exists_groupsBy hrows fun env row hrow => h.exists_key hrow
  -- Each group of the source is a group of the relation, so it gives the row of that group.
  have hboth : List.Forall₂ (fun g g' => ∃ out, evalGroupColumns A I (grouped ++ aggregates)
        (groupEnv (grouped.map Prod.snd) g.1) g.2 = some out ∧
      Row.summary A I dialect columns (groups.zip g'.1) g'.2 = some out ∧
      out.values groups = some g'.1) members members' := by
    refine forall₂_imp_mem hgroups ?_
    rintro g hg g' ⟨hkey, hgroup⟩
    obtain ⟨hnonempty, hfilter⟩ := members_of_groupsBy hmembers hg
    have hkeys : ∀ env ∈ g.2, (grouped.map Prod.snd).mapM (Expr.eval I env) = some g.1 := by
      intro env henv
      rw [hfilter] at henv
      exact of_decide_eq_true (List.mem_filter.1 henv).2
    obtain ⟨env, henv⟩ := List.exists_mem_of_ne_nil g.2 hnonempty
    obtain ⟨out, hstatement, hrow⟩ := h.exists_summary (A := A) hgroup hnonempty hkeys hsummary
    rw [← hkey]
    exact ⟨out, hstatement, hrow, h.values_of_summary (hkeys env henv) hrow⟩
  obtain ⟨rows, hstatement, hrelation⟩ := exists_forall₂ hboth
  refine ⟨rows, ?_, ?_⟩
  · have hcut : (stage base grouped aggregates).cut rows = rows :=
      cut_of_changesRowSet h.keepsRows rows
    rw [groupedRows_eq_some (h.isGrouped_stage hne) hmatching hmembers hstatement, hcut]
  · obtain ⟨hnodup, hkeys⟩ := keys_of_groupsBy hmembers'
    have hvalues : rows.map (Row.values groups) = (members'.map Prod.fst).map some := by
      rw [List.map_map]
      exact map_eq_of_forall₂ (hrelation.imp fun _ _ hout => hout.2)
    refine ⟨?_, ?_, ?_⟩
    · rw [hvalues]
      exact hnodup.map fun _ _ => Option.some.inj
    · intro key
      rw [← List.mem_map, hvalues, List.mem_map_of_injective fun _ _ => Option.some.inj, hkeys]
    · intro row hrow
      obtain ⟨g, hg, hsummary, hkey⟩ := exists_of_forall₂ hrelation hrow
      refine ⟨g.1, hkey, ?_⟩
      rw [← (members_of_groupsBy hmembers' hg).2]
      exact hsummary

end Summarizes

namespace QueryState

variable {s t : QueryState} {columns : List (String × ColumnExpr)} {r : Relation V}

/-- A summary takes the current statement, or reads it through a subquery, so that everything that
it reads is a column. -/
lemma exists_summarizes (hf : s.functions = .builtIn dialect) (hs : Computes I db s.last r)
    (h : s.summarize columns = .ok t) : ∃ base grouped aggregates,
      Summarizes I db dialect base r s.groups.toList columns grouped aggregates ∧
      t.last = Summarizes.stage base grouped aggregates := by
  obtain ⟨shaped, base, aliases, grouped, aggregates, _, rfl, _, hwrap, hproject, hcompiled, rfl⟩ :=
    summarize_cases h
  have hneeded : ∀ {a b c : Bool}, (a || b || c) = false → b = false ∧ c = false := by decide
  refine ⟨base, grouped, aggregates, ⟨hs.wrapIf hwrap, ?_, s.groups.nodup, hproject, ?_, ?_⟩, rfl⟩
  · exact changesRowSet_of_wrapIf hwrap fun hfalse => (hneeded hfalse).1
  · rw [List.forall₂_map_left_iff] at hcompiled
    rw [← hf]
    exact hcompiled
  · intro n hn x hx
    refine isColumn_of_wrapIf hwrap (fun hfalse => (hneeded hfalse).2) ?_ hx
    rwa [List.flatMap_map]

lemma groups_and_order_summarize (h : s.summarize columns = .ok t) :
    t.groups = .empty ∧ t.order = [] := by
  obtain ⟨_, _, _, _, _, _, _, _, _, _, _, rfl⟩ := summarize_cases h
  exact ⟨rfl, rfl⟩

/-- A grouping by one or more columns has some. -/
lemma groups_ne_nil_of_groupBy {given : List ColumnExpr} {add : Bool} (hne : given ≠ [])
    (h : s.groupBy given add = .ok t) : t.groups.toList ≠ [] := by
  cases given with
  | nil => exact absurd rfl hne
  | cons e rest =>
    simp only [groupBy, List.foldlM_cons, bind_eq_ok, pure_eq_ok] at h
    obtain ⟨groups, ⟨first, hfirst, hrest⟩, rfl⟩ := h
    have hsome : ∃ n, n ∈ groups := by
      refine foldlM_induction (motive := fun groups : OrderedSet => ∃ n, n ∈ groups) ?_ ?_ hrest
      · intro before e after _ hstep
        split at hstep
        · obtain ⟨name, _, rfl⟩ := map_eq_ok.1 hstep
          exact ⟨name, OrderedSet.mem_insert.2 (Or.inr rfl)⟩
        · cases hstep
      · split at hfirst
        · obtain ⟨name, _, rfl⟩ := map_eq_ok.1 hfirst
          exact ⟨name, OrderedSet.mem_insert.2 (Or.inr rfl)⟩
        · cases hfirst
    obtain ⟨n, hn⟩ := hsome
    exact List.ne_nil_of_mem hn

end QueryState

open QueryState

/-- A summary of a row-wise pipeline over a table, grouped by one or more columns, gives on every
contents of the table one row for each combination of values of the grouping columns, in which each
aggregate is taken over the rows of the pipeline with these values. The result is neither grouped
nor ordered. -/
theorem grouped_summary_keeps_meaning (A : Aggregates V) (I : Interpretation V)
    (db : TableRef → List (String → V)) {dialect : Dialect} {catalog : Catalog}
    {collection : String} {table : TableInfo} {verbs : List Verb} {s g t : QueryState}
    {given : List ColumnExpr} {add : Bool} {columns : OrderedMap ColumnExpr}
    (hwise : ∀ v ∈ verbs, v.isRowWise dialect = true)
    (hs : runPipeline catalog (.builtIn dialect)
      (.ofTable (.builtIn dialect) collection table) verbs = .ok s)
    (hgiven : given ≠ []) (hg : s.groupBy given add = .ok g)
    (hnew : g.SummarySeparates columns)
    (hsummary : ∀ e ∈ columns.values, e.shape.isSummary dialect g.groups.toList = true)
    (ht : g.summarize columns.entries = .ok t) :
    ∃ previous rows, g.last.rows I db = some previous ∧
      pipelineMeaning I dialect (.ofTable table (db (.stored table.schemaName table.tableName)))
        verbs = some ⟨g.columnNames, previous⟩ ∧
      t.last.groupedRows A I db = some rows ∧
      SummaryRows A I dialect g.groups.toList columns.entries previous rows ∧
      t.columnNames = g.groups.toList ++ columns.keys ∧ t.columnNames.Nodup ∧
      t.groups = .empty ∧ t.order = [] := by
  have hstart : Simulates I db dialect (.ofTable (.builtIn dialect) collection table)
      (.ofTable table (db (.stored table.schemaName table.tableName))) :=
    ⟨rfl, rfl, rfl, .ofTable _ _ _⟩
  obtain ⟨r, hr, hsim⟩ := hstart.runPipeline hwise hs
  have hsame : g.functions = s.functions ∧ g.last = s.last := by
    obtain ⟨groups, rfl⟩ := groupBy_cases hg
    exact ⟨rfl, rfl⟩
  have hcomputes : Computes I db g.last r := hsame.2 ▸ hsim.computes
  obtain ⟨base, grouped, aggregates, hparts, hlast⟩ :=
    exists_summarizes (hsame.1.trans hsim.functions) hcomputes ht
  obtain ⟨rows, hrows, hsummaries⟩ := hparts.groupedRows (groups_ne_nil_of_groupBy hgiven hg)
    (fun c hc => hsummary c.2 (List.mem_map_of_mem hc)) A
  refine ⟨r.rows, rows, hcomputes.rows, ?_, hlast ▸ hrows, hsummaries, columnNames_summarize ht,
    (nodup_summarize_iff ht).2 hnew, groups_and_order_summarize ht⟩
  rw [hr]
  exact congrArg some (congrArg₂ Relation.mk hcomputes.names.symm rfl)

/-- The aggregates of integers. -/
def integerAggregates : Aggregates Int where
  function
    | "sum", values => values.foldl (· + ·) 0
    | "max", values => values.foldl max 0
    | _, _ => 0
  countAll n := n
  count values := values.length
  countDistinct values := values.eraseDups.length

/-- People with a number above two, in groups. -/
def numberedPeople : List Verb :=
  [.mutate (.ofList [("y", .call .multiply [.column "x", .literal (.int 2)] [])]),
    .filter [.call .greaterThan [.column "y", .literal (.int 4)] []]]

/-- The sizes, the totals and the greatest numbers of groups, with the number of the group. -/
def groupTotals : OrderedMap ColumnExpr :=
  .ofList [("size", .call .count [] []),
    ("total", .call .add [.call .sum [.call .add [.column "y", .column "x"] []] [], .column "g"] []),
    ("most", .call .max [.column "y"] [])]

theorem groupTotals_keep_meaning : ∃ s g t previous, runPipeline peopleCatalog (.builtIn .postgres)
    (people .postgres) numberedPeople = .ok s ∧ s.groupBy [.column "g"] false = .ok g ∧
    g.summarize groupTotals.entries = .ok t ∧
    g.last.rows integers (fun _ => somePeople) = some previous ∧
    SummaryRows integerAggregates integers .postgres ["g"] groupTotals.entries previous
      [[("g", 1), ("size", 2), ("total", 19), ("most", 6)],
        [("g", 2), ("size", 1), ("total", 17), ("most", 10)]] := by
  have hrun : (do
      let s ← runPipeline peopleCatalog (.builtIn .postgres) (people .postgres) numberedPeople
      let g ← s.groupBy [.column "g"] false
      let t ← g.summarize groupTotals.entries
      return (g.groups.toList,
        t.last.groupedRows integerAggregates integers fun _ => somePeople)) =
      .ok (["g"], some [[("g", 1), ("size", 2), ("total", 19), ("most", 6)],
        [("g", 2), ("size", 1), ("total", 17), ("most", 10)]]) := by decide +kernel
  simp only [bind_eq_ok, pure_eq_ok, Prod.mk.injEq] at hrun
  obtain ⟨s, hs, g, hg, t, ht, hgroups, hvalues⟩ := hrun
  have hnew : ∀ n ∈ groupTotals.keys, n ∉ g.groups.toList := by
    rw [hgroups]
    decide +kernel
  have hsummary : ∀ e ∈ groupTotals.values,
      e.shape.isSummary .postgres g.groups.toList = true := by
    rw [hgroups]
    decide +kernel
  obtain ⟨previous, rows, hprevious, _, hrows, hsummaries, _⟩ :=
    grouped_summary_keeps_meaning integerAggregates integers (fun _ => somePeople)
      (by decide +kernel) hs (by simp) hg hnew hsummary ht
  rw [hvalues, Option.some.injEq] at hrows
  rw [hgroups, ← hrows] at hsummaries
  exact ⟨s, g, t, previous, hs, hg, ht, hprevious, hsummaries⟩

end PipelineSql
