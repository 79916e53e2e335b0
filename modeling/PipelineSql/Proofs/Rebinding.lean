import PipelineSql.Proofs.ParallelCompilation
import Mathlib.Data.Set.Function

/-!
# Compiling against other columns

An expression whose columns get new names and stand for expressions over other columns compiles to
what it compiled to before, with these expressions in the place of the columns.
-/

namespace PipelineSql

open Sql (Expr ColumnRef)

/-- A compilation is followed by that of renamed expressions, where the columns under the new names
stand for expressions over other columns. Windows stay in the expression, so that only their number
matters. -/
lemma CompileEnv.follows_rename {functions : FunctionTable} {scope scope' : Scope} {mode : Mode}
    {f : ColumnRef → Expr} {label : String → String} (hbuild : functions.Rebuilds mode f) :
    Follows ⟨functions, scope, {}⟩ ⟨functions, scope', {}⟩ mode mode f (ColumnExpr.rename label)
      (fun e => e.Shaped ∧ scope.Rebinds scope' f label e.reads)
      fun found other => other.length = found.length where
  literal := fun _ => rfl
  call := ColumnExpr.rename_call label
  parts := by
    rintro operation args keywords ⟨hshaped, hreads⟩
    cases hshaped with
    | call hargs hkeywords =>
      exact ⟨fun a ha => ⟨hargs a ha, hreads.parts.1 a ha⟩,
        fun k hk => ⟨hkeywords k hk, hreads.parts.2 k hk⟩⟩
  name := by
    rintro e n x ⟨hshaped, hreads⟩ hn hread hx
    have hlookup := hreads n hread x hx
    -- In the form in which expressions are compiled, only an attribute of the table is a column.
    unfold ColumnExpr.simpleName? at hn
    split at hn
    · cases hn
      exact ⟨_, rfl, by simp [ColumnExpr.rename, ColumnExpr.mapNodes, ColumnExpr.renameNode,
        ColumnExpr.reads], hlookup⟩
    · cases hshaped with
      | index _ _ hne => exact absurd rfl (hne rfl _)
    · simp [ColumnExpr.reads] at hread
    · cases hn
  lookup := fun _ _ _ _ _ hb => hb
  build := hbuild
  length := fun _ _ h => h
  place := fun found other call hother =>
    ⟨_, WindowContext.place_bindColumns (f := f) (c := {}) rfl scope scope' found other call, by
      simp [WindowContext.place, hother]⟩

namespace QueryState

variable {s : QueryState} {scope scope' : Scope} {mode : Mode} {f : ColumnRef → Expr}
  {label : String → String} {e : ColumnExpr} {x : Expr}

/-- Compiling with windows in place commutes with replacing what columns stand for. -/
lemma compileIn_rebinds {windows : WindowContext} (hbuild : s.functions.Rebuilds mode f)
    (hplace : windows.placement = .inPlace) (hreads : scope.Rebinds scope' f id e.reads)
    (h : s.compileIn scope mode windows e = .ok x) :
    s.compileIn scope' mode (windows.bindColumns f) e = .ok (x.bindColumns f) := by
  obtain ⟨⟨x, found⟩, hrun, rfl⟩ := map_eq_ok.1 h
  obtain ⟨other, _, hrun'⟩ := (CompileEnv.follows_rebinds
    (R := fun found other => other.length = found.length) hbuild hplace (fun _ _ h => h)
    (by simp)).compile rfl hreads hrun
  exact map_eq_ok.2 ⟨_, hrun', rfl⟩

/-- Compiling commutes with renaming what an expression reads and with replacing what its columns
stand for. -/
lemma compileIn_rename (hbuild : s.functions.Rebuilds mode f) (hshaped : e.Shaped)
    (hreads : scope.Rebinds scope' f label e.reads) (h : s.compileIn scope mode {} e = .ok x) :
    s.compileIn scope' mode {} (e.rename label) = .ok (x.bindColumns f) := by
  obtain ⟨⟨x, found⟩, hrun, rfl⟩ := map_eq_ok.1 h
  obtain ⟨other, _, hrun'⟩ :=
    (CompileEnv.follows_rename hbuild).compile rfl ⟨hshaped, hreads⟩ hrun
  exact map_eq_ok.2 ⟨_, hrun', rfl⟩

/-- An expression whose columns go by other names, no two of them by one, compiles to the same as
before. -/
lemma compileIn_rename_iff (hshaped : e.Shaped)
    (hinj : ∀ n ∈ e.reads, ∀ m ∈ e.reads, label n = label m → n = m)
    (hreads : ∀ n ∈ e.reads, ∃ x, scope.lookup n = .ok x ∧ scope'.lookup (label n) = .ok x) :
    s.compileIn scope' mode {} (e.rename label) = .ok x ↔ s.compileIn scope mode {} e = .ok x := by
  constructor
  · intro h
    let back := Function.invFunOn label {n | n ∈ e.reads}
    have hback : ∀ n ∈ e.reads, back (label n) = n := fun n hn =>
      Set.InjOn.leftInvOn_invFunOn (fun n hn m hm => hinj n hn m hm) hn
    have hrenamed : (e.rename label).rename back = e := by
      rw [ColumnExpr.rename_rename]
      exact ColumnExpr.rename_eq_self hback
    have hrebinds : scope'.Rebinds scope .column back (e.rename label).reads := by
      rw [hshaped.reads_rename]
      intro m hm y hy
      obtain ⟨n, hn, rfl⟩ := List.mem_map.1 hm
      obtain ⟨z, hz, hz'⟩ := hreads n hn
      rw [hz'] at hy
      cases hy
      rw [hback n hn, Expr.bindColumns_self, hz]
    have hcompiled := compileIn_rename (s.functions.rebuilds_self mode) (hshaped.rename label)
      hrebinds h
    rwa [hrenamed, Expr.bindColumns_self] at hcompiled
  · intro h
    have hrebinds : scope.Rebinds scope' .column label e.reads := by
      intro n hn y hy
      obtain ⟨z, hz, hz'⟩ := hreads n hn
      rw [hz] at hy
      cases hy
      rw [hz', Expr.bindColumns_self]
    have hcompiled := compileIn_rename (s.functions.rebuilds_self mode) hshaped hrebinds h
    rwa [Expr.bindColumns_self] at hcompiled

end QueryState

end PipelineSql
