import PipelineSql.Proofs.Reachability

/-!
# Runs of columns

A run goes from one bound to another, and a bound is a column or a position. A run is a block of
the columns of the query wherever both of its bounds stand among them. One run reaches outside:
the run without bounds in a query without columns.
-/

namespace PipelineSql

/-- Where a bound stands among columns: a number at the position that it gives, and a column at its
first place. -/
inductive BoundAt (available : List String) : ColumnExpr → Nat → Prop where
  | position {i : Int64} {k : Nat} : i.toInt = k → k < available.length →
      BoundAt available (.literal (.int i)) k
  | column {e : ColumnExpr} {n : String} {before after : List String} : e.simpleName? = some n →
      available = before ++ n :: after → n ∉ before → BoundAt available e before.length

/-- Why a bound stands nowhere among columns. -/
inductive Unbounded (available : List String) : ColumnExpr → Error → Prop where
  | position {i : Int64} : (∀ k : Nat, i.toInt = k → available.length ≤ k) →
      Unbounded available (.literal (.int i)) (.invalidVerb (.noColumnAt i))
  | column {e : ColumnExpr} {n : String} : e.simpleName? = some n → n ∉ available →
      Unbounded available e (.unknownColumn n available)
  | other {e : ColumnExpr} : e.simpleName? = none → (∀ i, e ≠ .literal (.int i)) →
      Unbounded available e (.invalidVerb (.notABound e))

/-- Where a run starts: at its bound, or at the first column. -/
def StartsAt (available : List String) : Option ColumnExpr → Nat → Prop
  | none, first => first = 0
  | some e, first => BoundAt available e first

/-- The place behind a run: the one after its bound, or the one after the last column. -/
def EndsBefore (available : List String) : Option ColumnExpr → Nat → Prop
  | none, behind => behind = available.length
  | some e, behind => ∃ last, BoundAt available e last ∧ behind = last + 1

/-- The columns from one place up to another; none when the second does not come after the
first. -/
def IsBlock (available : List String) (first behind : Nat) (names : List String) : Prop :=
  ∃ before after, available = before ++ names ++ after ∧ before.length = first ∧
    names.length = behind - first

/-- What a run may give: the block between its bounds, or an error about a bound that stands
nowhere. -/
inductive RunResult (available : List String) (start stop : Option ColumnExpr) :
    Except Error Selector → Prop where
  | block {first behind : Nat} {names : List String} : StartsAt available start first →
      EndsBefore available stop behind → IsBlock available first behind names →
      RunResult available start stop (.ok (.keep names))
  | unbounded {e : ColumnExpr} {error : Error} : start = some e ∨ stop = some e →
      Unbounded available e error → RunResult available start stop (.error error)

namespace Selector

variable {available : List String}

lemma known_eq_error {n : String} {error : Error} (h : known available n = .error error) :
    n ∉ available ∧ error = .unknownColumn n available := by
  unfold known at h
  split at h
  · cases h
  · cases h
    exact ⟨‹_›, rfl⟩

/-- A bound that is no number is a column. -/
lemma position_of_not_int {e : ColumnExpr} (h : ∀ i, e ≠ .literal (.int i)) :
    position available e = match e.simpleName? with
      | some name => (known available name).map available.idxOf
      | none => .error (.invalidVerb (.notABound e)) := by
  unfold position
  split
  · exact absurd rfl (h _)
  · rfl

lemma position_column {e : ColumnExpr} {n : String} (h : e.simpleName? = some n) :
    position available e = (known available n).map available.idxOf := by
  rw [position_of_not_int, h]
  rintro i rfl
  cases h

/-- The position of a bound is where it stands. -/
lemma position_eq_ok {e : ColumnExpr} {k : Nat} :
    position available e = .ok k ↔ BoundAt available e k := by
  constructor
  · intro h
    unfold position at h
    split at h
    · split at h
      · rename_i hbounds
        cases h
        exact .position (Int.toNat_of_nonneg hbounds.1).symm hbounds.2
      · cases h
    · split at h
      · rename_i n hname
        obtain ⟨m, hknown, rfl⟩ := map_eq_ok.1 h
        unfold known at hknown
        split at hknown
        · cases hknown
          obtain ⟨before, after, hsplit, hbefore⟩ := List.eq_append_cons_of_mem ‹n ∈ available›
          have hplace : available.idxOf n = before.length := by
            rw [hsplit, List.idxOf_append_of_notMem hbefore, List.idxOf_cons_self, Nat.add_zero]
          exact hplace ▸ .column hname hsplit hbefore
        · cases hknown
      · cases h
  · intro h
    cases h with
    | position hi hk =>
      simp [position, hi, hk]
    | column hname hsplit hbefore =>
      subst hsplit
      simp [position_column hname, known, Except.map, List.idxOf_append_of_notMem hbefore]

lemma position_eq_error {e : ColumnExpr} {error : Error} (h : position available e = .error error) :
    Unbounded available e error := by
  unfold position at h
  split at h
  · split at h
    · cases h
    · rename_i i hbounds
      cases h
      refine .position ?_
      intro k hk
      by_contra hlt
      exact hbounds (by omega)
  · rename_i hint
    split at h
    · obtain ⟨hmissing, rfl⟩ := known_eq_error (map_eq_error.1 h)
      exact .column ‹_› hmissing
    · cases h
      exact .other ‹_› hint

/-- A run in terms of the places of its bounds. -/
lemma run_eq (available : List String) (start stop : Option ColumnExpr) :
    run available start stop =
      start.elim (.ok 0) (position available) >>= fun first =>
        stop.elim (.ok (available.length - 1)) (position available) >>= fun last =>
          if last < first then .ok []
          else if last < available.length then
            .ok ((available.drop first).take (last + 1 - first))
          else .error (.runOutOfBounds (last + 1) available.length) := by
  cases start with
  | none => cases stop <;> rfl
  | some e => cases stop <;> rfl

end Selector

open Selector

variable {available : List String}

lemma BoundAt.lt_length {e : ColumnExpr} {k : Nat} (h : BoundAt available e k) :
    k < available.length := by
  cases h with
  | position _ hk => exact hk
  | column _ hsplit _ => simp [hsplit]

/-- Among columns, every place where a run starts is one of them. -/
lemma StartsAt.lt_length {start : Option ColumnExpr} {first : Nat}
    (h : StartsAt available start first) (hcolumns : available ≠ []) :
    first < available.length := by
  cases start with
  | none =>
    cases h
    exact List.length_pos_iff.2 hcolumns
  | some e => exact BoundAt.lt_length h

/-- Among columns, the place behind a run is the one after a column. -/
lemma EndsBefore.exists_last {stop : Option ColumnExpr} {behind : Nat}
    (h : EndsBefore available stop behind) (hcolumns : available ≠ []) :
    ∃ last, behind = last + 1 ∧ last < available.length := by
  cases stop with
  | none =>
    cases h
    have hpositive := List.length_pos_iff.2 hcolumns
    exact ⟨available.length - 1, by omega, by omega⟩
  | some e =>
    obtain ⟨last, hlast, rfl⟩ := h
    exact ⟨last, rfl, hlast.lt_length⟩

lemma isBlock_drop_take {first behind : Nat} (hfirst : first ≤ available.length)
    (hbehind : behind ≤ available.length) :
    IsBlock available first behind ((available.drop first).take (behind - first)) := by
  refine ⟨available.take first, (available.drop first).drop (behind - first), ?_, ?_, ?_⟩
  · rw [List.append_assoc, List.take_append_drop, List.take_append_drop]
  · exact List.length_take_of_le hfirst
  · rw [List.length_take, List.length_drop]
    omega

/-- A block is determined by its places. -/
lemma IsBlock.eq_take_drop {first behind : Nat} {names : List String}
    (h : IsBlock available first behind names) :
    names = (available.drop first).take (behind - first) := by
  obtain ⟨before, after, rfl, rfl, hlength⟩ := h
  simp [← hlength]

namespace Selector

lemma start_eq_ok {start : Option ColumnExpr} {first : Nat} :
    start.elim (.ok 0) (position available) = .ok first ↔ StartsAt available start first := by
  cases start with
  | none => simp [StartsAt, eq_comm]
  | some e => exact position_eq_ok

lemma stop_eq_ok (hcolumns : available ≠ []) {stop : Option ColumnExpr} {last : Nat} :
    stop.elim (.ok (available.length - 1)) (position available) = .ok last ↔
      EndsBefore available stop (last + 1) := by
  cases stop with
  | none =>
    have hpositive := List.length_pos_iff.2 hcolumns
    simp only [Option.elim_none, Except.ok.injEq, EndsBefore]
    omega
  | some e => simp [EndsBefore, position_eq_ok]

/-- Where both bounds stand among the columns, the run is the block between them. -/
lemma exists_run {start stop : Option ColumnExpr} {first behind : Nat}
    (hcolumns : available ≠ []) (hstart : StartsAt available start first)
    (hstop : EndsBefore available stop behind) :
    ∃ names, run available start stop = .ok names ∧ IsBlock available first behind names := by
  have hfirst := hstart.lt_length hcolumns
  obtain ⟨last, rfl, hlast⟩ := hstop.exists_last hcolumns
  refine ⟨_, ?_, isBlock_drop_take hfirst.le hlast⟩
  rw [run_eq, start_eq_ok.2 hstart, (stop_eq_ok hcolumns).2 hstop]
  -- A run whose start lies behind its stop takes no column.
  by_cases hempty : last < first
  · have hnone : last + 1 - first = 0 := by omega
    simp [bind, Except.bind, hempty, hnone]
  · simp [bind, Except.bind, hempty, hlast]

/-- Without columns, a run that finds its bounds has none. -/
lemma bounds_eq_none {start stop : Option ColumnExpr} {first last : Nat}
    (hstart : start.elim (.ok 0) (position []) = .ok first)
    (hstop : stop.elim (.ok (([] : List String).length - 1)) (position []) = .ok last) :
    start = none ∧ stop = none := by
  constructor
  · cases start with
    | none => rfl
    | some e => exact absurd (position_eq_ok.1 hstart).lt_length (Nat.not_lt_zero _)
  · cases stop with
    | none => rfl
    | some e => exact absurd (position_eq_ok.1 hstop).lt_length (Nat.not_lt_zero _)

/-- A run fails for a bound that stands nowhere, or it has neither bounds nor columns. -/
lemma run_eq_error {start stop : Option ColumnExpr} {error : Error}
    (h : run available start stop = .error error) :
    (∃ e, (start = some e ∨ stop = some e) ∧ Unbounded available e error) ∨
      (available = [] ∧ start = none ∧ stop = none) := by
  rw [run_eq] at h
  rcases bind_eq_error.1 h with hstart | ⟨first, hstart, h⟩
  · cases start with
    | none => cases hstart
    | some e => exact Or.inl ⟨e, Or.inl rfl, position_eq_error hstart⟩
  rcases bind_eq_error.1 h with hstop | ⟨last, hstop, h⟩
  · cases stop with
    | none => cases hstop
    | some e => exact Or.inl ⟨e, Or.inr rfl, position_eq_error hstop⟩
  by_cases hcolumns : available = []
  · subst hcolumns
    exact Or.inr ⟨rfl, bounds_eq_none hstart hstop⟩
  · obtain ⟨_, hsame, hlast⟩ := ((stop_eq_ok hcolumns).1 hstop).exists_last hcolumns
    cases hsame
    simp only [hlast, if_true] at h
    split at h
    · cases h
    · cases h

lemma run_nil : run [] none none = .error (.runOutOfBounds 1 0) := rfl

/-- A run gives the block between its bounds, unless it has neither bounds nor columns. -/
lemma runResult_iff {start stop : Option ColumnExpr} :
    RunResult available start stop ((run available start stop).map .keep) ↔
      ¬(available = [] ∧ start = none ∧ stop = none) := by
  constructor
  · rintro h ⟨rfl, rfl, rfl⟩
    rw [run_nil] at h
    cases h with
    | unbounded hbound _ => simp at hbound
  · intro hbounded
    cases hrun : run available start stop with
    | error error =>
      rcases run_eq_error hrun with ⟨e, hbound, hnowhere⟩ | hunbounded
      · exact .unbounded hbound hnowhere
      · exact absurd hunbounded hbounded
    | ok names =>
      have hpositions := hrun
      rw [run_eq] at hpositions
      simp only [bind_eq_ok] at hpositions
      obtain ⟨first, hstart, last, hstop, _⟩ := hpositions
      have hcolumns : available ≠ [] := by
        rintro rfl
        exact hbounded ⟨rfl, bounds_eq_none hstart hstop⟩
      have hfirst := start_eq_ok.1 hstart
      have hbehind := (stop_eq_ok hcolumns).1 hstop
      obtain ⟨block, hblock, hisBlock⟩ := exists_run hcolumns hfirst hbehind
      rw [hrun] at hblock
      cases hblock
      exact .block hfirst hbehind hisBlock

/-- Where there are columns, no argument reaches outside of them. -/
lemma parse_ne_outOfBounds (hcolumns : available ≠ []) (e : ColumnExpr) (stop size : Nat) :
    parse available e ≠ .error (.runOutOfBounds stop size) := by
  fun_induction parse available e with
  | case1 start last =>
    intro h
    rcases run_eq_error (map_eq_error.1 h) with ⟨_, _, hnowhere⟩ | ⟨hnone, _⟩
    · cases hnowhere
    · exact hcolumns hnone
  | case2 arg ih =>
    intro h
    rcases bind_eq_error.1 h with harg | ⟨selector, _, h⟩
    · exact ih harg
    · cases selector with
      | keep names => cases h
      | drop names => cases h
      | relabel new old => cases h
  | case3 new old n o hnew hold =>
    intro h
    cases (known_eq_error (map_eq_error.1 h)).2
  | case4 => simp
  | case5 e n hname =>
    intro h
    cases (known_eq_error (map_eq_error.1 h)).2
  | case6 => simp

end Selector

lemma throwing_eq_error {ε α : Type} {c : Prop} [Decidable c] {e error : ε}
    {f : PUnit → Except ε α} {x : Except ε α} :
    (if c then (throw e : Except ε PUnit) >>= f else x) = .error error ↔
      c ∧ e = error ∨ ¬c ∧ x = .error error := by
  by_cases hc : c
  · simp [hc, throw, throwThe, MonadExceptOf.throw, bind, Except.bind]
  · simp [hc]

namespace QueryState

/-- Where there are columns, no selection reaches outside of them. -/
lemma select_ne_outOfBounds {s : QueryState} (hcolumns : s.columnNames ≠ [])
    (columns : List ColumnExpr) (stop size : Nat) :
    s.select columns ≠ .error (.runOutOfBounds stop size) := by
  intro h
  unfold select at h
  rcases bind_eq_error.1 h with hparse | ⟨selectors, _, h⟩
  · obtain ⟨e, _, hparse⟩ := exists_of_mapM_eq_error hparse
    exact parse_ne_outOfBounds hcolumns e.shape stop size hparse
  rcases throwing_eq_error.1 h with ⟨_, hnothing⟩ | ⟨_, h⟩
  · cases hnothing
  rcases bind_eq_error.1 h with hlist | ⟨list, _, h⟩
  · obtain ⟨e, _, hlookup⟩ := exists_of_mapM_eq_error hlist
    rcases bind_eq_error.1 hlookup with hlookup | ⟨_, _, hpure⟩
    · unfold Scope.lookup at hlookup
      split at hlookup
      · cases hlookup
      · cases hlookup
    · cases hpure
  · cases h

end QueryState

/-- The argument of `select` that asks for a run. -/
def ColumnExpr.columnRun (start stop : Option ColumnExpr) : ColumnExpr :=
  .index .reference (.slice start stop)

lemma ColumnExpr.shape_columnRun (start stop : Option ColumnExpr) :
    (columnRun start stop).shape = columnRun (start.map shape) (stop.map shape) := by
  cases start with
  | none => cases stop <;> rfl
  | some e => cases stop <;> rfl

open ColumnExpr (columnRun)

/-- A run stays within the columns of a query exactly when it has a bound or the query has a column:
it is then the block between its bounds, or names a bound that stands nowhere. With columns, it is
that block whenever both bounds stand among them, and no selection reaches outside. -/
theorem column_run_in_bounds_iff (s : QueryState) (start stop : Option ColumnExpr) :
    (RunResult s.columnNames (start.map ColumnExpr.shape) (stop.map ColumnExpr.shape)
        (Selector.parse s.columnNames (columnRun start stop).shape) ↔
      ¬(s.columnNames = [] ∧ start = none ∧ stop = none)) ∧
    (s.columnNames ≠ [] →
      (∀ first behind, StartsAt s.columnNames (start.map ColumnExpr.shape) first →
        EndsBefore s.columnNames (stop.map ColumnExpr.shape) behind →
        ∃ names, Selector.parse s.columnNames (columnRun start stop).shape = .ok (.keep names) ∧
          IsBlock s.columnNames first behind names) ∧
      ∀ columns last size, s.select columns ≠ .error (.runOutOfBounds last size)) := by
  have hparse : Selector.parse s.columnNames (columnRun start stop).shape =
      (run s.columnNames (start.map ColumnExpr.shape) (stop.map ColumnExpr.shape)).map .keep := by
    rw [ColumnExpr.shape_columnRun]
    rfl
  rw [hparse]
  refine ⟨?_, fun hcolumns => ⟨?_, QueryState.select_ne_outOfBounds hcolumns⟩⟩
  · rw [runResult_iff]
    simp only [Option.map_eq_none_iff]
  · intro first behind hstart hstop
    obtain ⟨names, hrun, hblock⟩ := exists_run hcolumns hstart hstop
    exact ⟨names, map_eq_ok.2 ⟨names, hrun, rfl⟩, hblock⟩

/-- A table for concrete instances, with four columns. -/
def wideTable : TableInfo where
  tableName := "wide"
  columns := .ofList (["a", "b", "c", "d"].map fun n => (n, { name := n, type := .integer }))

/-- A run from a column to a position takes both. -/
theorem wideTable_run_from_column_to_position :
    ∃ names, Selector.parse (QueryState.ofTable (.builtIn .postgres) "wide" wideTable).columnNames
        (columnRun (some (.index .reference (.literal (.str "b"))))
          (some (.literal (.int 2)))).shape = .ok (.keep names) ∧
      IsBlock ["a", "b", "c", "d"] 1 3 names ∧ names = ["b", "c"] := by
  have hnames : (QueryState.ofTable (.builtIn .postgres) "wide" wideTable).columnNames =
      ["a", "b", "c", "d"] := by decide
  obtain ⟨_, hcolumns⟩ := column_run_in_bounds_iff
    (QueryState.ofTable (.builtIn .postgres) "wide" wideTable)
    (some (.index .reference (.literal (.str "b")))) (some (.literal (.int 2)))
  rw [hnames] at hcolumns ⊢
  have hsplit : ["a", "b", "c", "d"] = ["a"] ++ "b" :: ["c", "d"] := rfl
  obtain ⟨names, hparse, hblock⟩ := (hcolumns (by decide)).1 1 3
    (BoundAt.column rfl hsplit (by decide))
    ⟨2, .position (by decide) (by decide), rfl⟩
  exact ⟨names, hparse, hblock, hblock.eq_take_drop⟩

/-- A table for concrete instances, without columns. -/
def bareTable : TableInfo where
  tableName := "bare"
  columns := .empty

/-- The run of all columns of a table that has none ends outside of it. -/
theorem bareTable_run_out_of_bounds :
    ¬RunResult (QueryState.ofTable (.builtIn .postgres) "bare" bareTable).columnNames none none
      (Selector.parse (QueryState.ofTable (.builtIn .postgres) "bare" bareTable).columnNames
        (columnRun none none).shape) ∧
    (QueryState.ofTable (.builtIn .postgres) "bare" bareTable).select [columnRun none none] =
      .error (.runOutOfBounds 1 0) := by
  refine ⟨?_, rfl⟩
  intro h
  cases h with
  | unbounded hbound _ => simp at hbound

end PipelineSql
