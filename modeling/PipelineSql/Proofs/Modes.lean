import PipelineSql.Proofs.TableExtension

/-!
# One meaning in every context

An operation is looked up among the scalar ones first, at every node of an expression. What compiles
row by row therefore compiles to the same where groups or windows are computed, also in a table
whose buckets overlap.
-/

namespace PipelineSql

open Sql (Expr)
open CompileEnv (compile)

/-- A builder that a dialect comes with for an operation that works row by row. -/
def Builder.IsScalar (b : Builder) : Prop :=
  ∃ dialect operation t, scalarTemplate dialect operation = some t ∧ b = t.build

/-- A scalar builder is found in every context. -/
lemma FunctionTable.lookup_of_scalar {functions : FunctionTable} {operation : Operation}
    {builder : Builder} (h : functions.lookup operation .scalar = .ok builder) (mode : Mode) :
    functions.lookup operation mode = .ok builder := by
  rw [lookup_eq_ok] at h ⊢
  unfold find? at h ⊢
  cases hscalar : functions.scalar operation with
  | none => simp [hscalar] at h
  | some b => simpa [hscalar] using h

/-- A compilation row by row is followed by one in any other context. -/
lemma CompileEnv.follows_mode (env : CompileEnv) (mode : Mode) :
    Follows env env .scalar mode .column id (fun _ => True) fun found other => other = found :=
  follows_lookup (fun _ _ _ _ => ⟨fun _ _ => trivial, fun _ _ => trivial⟩)
    fun _ _ _ _ _ hb => FunctionTable.lookup_of_scalar hb mode

/-- Expressions that are built by scalar builders add no windows. -/
lemma CompileEnv.scalarBuiltCases (env : CompileEnv) (mode : Mode) :
    CompileCases env mode fun found e _ found' =>
      e.CallsOnly (fun operation => ∀ builder,
        env.functions.lookup operation mode = .ok builder → builder.IsScalar) →
      found' = found where
  literal := fun _ _ _ => rfl
  name := fun _ _ _ _ _ _ _ _ => rfl
  call := by
    intro operation args keywords builder es ks found mid last r found' hb hargs hkeywords hfin
      hcalls
    obtain ⟨hop, hcallsArgs, hcallsKeywords⟩ := ColumnExpr.callsOnly_call hcalls
    have hmid : mid = found := (forall₂_of_threaded (S := fun _ _ => True) hargs
      fun s a b t ha hR => ⟨hR (hcallsArgs a ha), trivial⟩).1
    have hlast : last = mid := (forall₂_of_threaded (S := fun _ _ => True) hkeywords
      fun s k y t hk hR => ⟨hR.2 (hcallsKeywords k hk), trivial⟩).1
    obtain ⟨dialect, lender, t, ht, rfl⟩ := hop builder hb
    obtain ⟨hfound, _⟩ := finishCall_of_not_window (scalarTemplate_isWindow ht) hfin
    rw [hfound, hlast, hmid]

/-- What compiles row by row compiles in every context, to the same expression with the same
windows; and where scalar builders alone are at work, in whatever context and bucket, there are no
windows. -/
theorem scalar_compilation_in_every_mode (env : CompileEnv) (e : ColumnExpr) :
    (∀ r found, env.compile .scalar e = .ok (r, found) →
      ∀ mode, env.compile mode e = .ok (r, found)) ∧
    ∀ mode r found, env.compile mode e = .ok (r, found) →
      (∀ operation ∈ e.operations, ∀ builder,
        env.functions.lookup operation mode = .ok builder → builder.IsScalar) →
      found = [] := by
  refine ⟨?_, ?_⟩
  · intro r found hrun mode
    exact (env.follows_mode mode).compile_of_eq trivial hrun
  · intro mode r found hrun hscalar
    exact (env.scalarBuiltCases mode).compileFrom e hrun hscalar

/-- A table that has sums in all three buckets; the scalar one makes absolute values of them. -/
def sumByAbs : FunctionTable :=
  (FunctionTable.builtIn .postgres).withScalar .sum (Template.function "abs").build

/-- The sum of a number, or else another number that stands under a keyword. -/
def sumOrDefault : ColumnExpr :=
  .call .caseWhen [.call .isNotNull [.column "x"] [], .call .sum [.column "x"] []]
    [("default", .call .sum [.literal (.int 0)] [])]

/-- The scalar entry of an operation is the one that counts, wherever the others would apply. -/
theorem sumOrDefault_in_every_mode : ∃ r,
    compile ⟨sumByAbs, numberScope [], {}⟩ .scalar sumOrDefault = .ok (r, []) ∧
    ∀ mode, compile ⟨sumByAbs, numberScope [], {}⟩ mode sumOrDefault = .ok (r, []) := by
  have hrun : ∃ r found, compile ⟨sumByAbs, numberScope [], {}⟩ .scalar sumOrDefault =
      .ok (r, found) := ⟨_, _, rfl⟩
  obtain ⟨r, found, hrun⟩ := hrun
  obtain ⟨hmodes, hwindows⟩ :=
    scalar_compilation_in_every_mode ⟨sumByAbs, numberScope [], {}⟩ sumOrDefault
  have hscalar : ∀ operation ∈ sumOrDefault.operations, ∀ builder,
      sumByAbs.lookup operation .scalar = .ok builder → builder.IsScalar := by
    intro operation hop builder hb
    have hcases : operation = .caseWhen ∨ operation = .isNotNull ∨ operation = .sum := by
      simpa [sumOrDefault, ColumnExpr.column, ColumnExpr.operations] using hop
    rcases hcases with rfl | rfl | rfl
    · cases hb
      exact ⟨.postgres, .caseWhen, _, rfl, rfl⟩
    · cases hb
      exact ⟨.postgres, .isNotNull, _, rfl, rfl⟩
    · cases hb
      exact ⟨.postgres, .abs, _, rfl, rfl⟩
  obtain rfl := hwindows .scalar r found hrun hscalar
  exact ⟨r, hrun, hmodes r [] hrun⟩

end PipelineSql
