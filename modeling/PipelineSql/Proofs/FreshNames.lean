import Mathlib.Data.Nat.SuccPred
import PipelineSql.Proofs.Hoisting
import PipelineSql.Proofs.ParallelCompilation

/-!
# Fresh names

Windows are labelled, and counts are named, by trying one name after another until one is free. The
names that are tried differ from one another and only finitely many are taken, so every search
ends, and it ends with the first free name.
-/

namespace PipelineSql

open Sql (Expr)

/-- A search through one candidate after another ends at the first whose name is not taken. -/
inductive SearchEnds {σ : Type} (taken : String → Prop) (name : σ → String) (next : σ → σ) :
    σ → String → Prop where
  | here {s : σ} : ¬taken (name s) → SearchEnds taken name next s (name s)
  | later {s : σ} {n : String} : taken (name s) → SearchEnds taken name next (next s) n →
      SearchEnds taken name next s n

/-- The steps of a search, over the candidates that are taken to the one that is free. -/
lemma SearchEnds.of_iterate {σ : Type} {taken : String → Prop} {name : σ → String} {next : σ → σ}
    {k : Nat} {s : σ} (hbefore : ∀ j < k, taken (name (next^[j] s)))
    (hfree : ¬taken (name (next^[k] s))) :
    SearchEnds taken name next s (name (next^[k] s)) := by
  induction k generalizing s with
  | zero => exact .here hfree
  | succ k ih =>
    refine .later (hbefore 0 (Nat.succ_pos k)) (ih ?_ hfree)
    intro j hj
    exact hbefore (j + 1) (Nat.succ_lt_succ hj)

section FirstFree

variable {taken : List String} {name : Nat → String}

/-- The candidate that is chosen is the first free one, and no more candidates come before it than
there are names in use. -/
lemma firstFree_eq_first (taken : List String) (hname : Function.Injective name) :
    ∃ k ≤ taken.length, firstFree taken name = name k ∧ name k ∉ taken ∧
      ∀ j < k, name j ∈ taken := by
  have hfree : firstFree taken name ∉ taken := firstFree_not_mem hname
  unfold firstFree at hfree ⊢
  rw [List.find?_map] at hfree ⊢
  cases hfind : (List.range (taken.length + 1)).find? ((fun n => decide (n ∉ taken)) ∘ name) with
  | none =>
    -- Then all candidates are taken, also the one that is fallen back on.
    have hzero := List.find?_eq_none.1 hfind 0 (List.mem_range.2 (Nat.succ_pos _))
    rw [hfind] at hfree
    exact absurd (by simpa using hzero) hfree
  | some k =>
    obtain ⟨hk, hrange, hbefore⟩ := List.find?_range_eq_some.1 hfind
    refine ⟨k, Nat.lt_succ_iff.1 (List.mem_range.1 hrange), rfl, by simpa using hk, ?_⟩
    intro j hj
    simpa using hbefore j hj

/-- The bounded search finds the name that a search without a bound ends with. -/
lemma searchEnds_firstFree {σ : Type} {label : σ → String} {next : σ → σ} {start : σ}
    (hname : Function.Injective name) (hsteps : ∀ i, label (next^[i] start) = name i) :
    SearchEnds (· ∈ taken) label next start (firstFree taken name) := by
  obtain ⟨k, _, hk, hfree, hbefore⟩ := firstFree_eq_first taken hname
  rw [hk, ← hsteps k]
  refine .of_iterate ?_ ?_
  · intro j hj
    rw [hsteps j]
    exact hbefore j hj
  · rwa [hsteps k]

end FirstFree

section Labels

variable {scope : Scope} {found : List LabelledWindow}

/-- Each window has the label that is fresh beside those before it. -/
def LabelledInTurn (scope : Scope) (found : List LabelledWindow) : Prop :=
  ∀ before w after, found = before ++ w :: after → w.label = freshLabel scope before

lemma LabelledInTurn.nil : LabelledInTurn scope [] := by
  intro before w after h
  simp at h

lemma LabelledInTurn.place (h : LabelledInTurn scope found) (c : WindowContext)
    (call : WindowCall) : LabelledInTurn scope (c.place scope found call).2 := by
  intro before w after hsplit
  simp only [WindowContext.place] at hsplit
  rcases List.eq_nil_or_concat after with rfl | ⟨rest, last, rfl⟩
  · obtain ⟨rfl, hw⟩ := List.append_inj' hsplit rfl
    rw [← List.singleton_inj.1 hw]
  · rw [List.concat_eq_append, ← List.cons_append, ← List.append_assoc] at hsplit
    exact h before w rest (List.append_inj' hsplit rfl).1

lemma labelledInTurn_compileAll {env : CompileEnv} {mode : Mode} {as : List ColumnExpr}
    {es : List Expr} (h : env.compileAll mode as = .ok (es, found)) :
    LabelledInTurn env.scope found :=
  windows_of_compileAll .nil (fun _ call hfound => hfound.place env.windows call) h

lemma searchEnds_freshLabel (scope : Scope) (found : List LabelledWindow) :
    SearchEnds (· ∈ scope.names ++ found.map LabelledWindow.label)
      (fun i : Nat => "win" ++ toString i) Nat.succ (found.length + 1)
      (freshLabel scope found) := by
  refine searchEnds_firstFree (label_from_injective _) fun i => ?_
  rw [Nat.succ_iterate]

end Labels

section Counts

lemma push_iterate (name : String) (c : Char) (i : Nat) :
    (·.push c)^[i] name = name ++ String.ofList (List.replicate i c) := by
  induction i with
  | zero => simp
  | succ i ih =>
    rw [Function.iterate_succ_apply', ih]
    refine String.toList_inj.1 ?_
    simp [List.replicate_succ']

lemma searchEnds_countName (taken : List String) (name : String) :
    SearchEnds (· ∈ taken) id (·.push 'n') name (QueryState.countName taken name) :=
  searchEnds_firstFree (append_replicate_injective name 'n') (push_iterate name 'n')

end Counts

/-- Every search for a fresh name ends. A window that is found after `k` others has the first of the
labels `win(k + 1)`, `win(k + 2)`, … that is neither a column in scope nor a label before it, and a
count has the name that it is given and behind it as few letters `n` as suffice. -/
theorem fresh_names_found :
    (∀ scope found, SearchEnds (· ∈ scope.names ++ found.map LabelledWindow.label)
      (fun i : Nat => "win" ++ toString i) Nat.succ (found.length + 1) (freshLabel scope found)) ∧
    (∀ (env : CompileEnv) mode es rs windows, env.compileAll mode es = .ok (rs, windows) →
      ∀ before w after, windows = before ++ w :: after →
        SearchEnds (· ∈ env.scope.names ++ before.map LabelledWindow.label)
          (fun i : Nat => "win" ++ toString i) Nat.succ (before.length + 1) w.label ∧
        w.label ∉ env.scope.names ∧ w.label ∉ before.map LabelledWindow.label) ∧
    ∀ taken name, SearchEnds (· ∈ taken) id (·.push 'n') name (QueryState.countName taken name) ∧
      ∃ k ≤ taken.length,
        QueryState.countName taken name = name ++ String.ofList (List.replicate k 'n') ∧
        QueryState.countName taken name ∉ taken ∧
        ∀ j < k, name ++ String.ofList (List.replicate j 'n') ∈ taken := by
  refine ⟨searchEnds_freshLabel, ?_, ?_⟩
  · intro env mode es rs windows hrun before w after hsplit
    have hlabel := labelledInTurn_compileAll hrun before w after hsplit
    have hfresh := freshLabel_not_mem env.scope before
    rw [← hlabel, List.mem_append, not_or] at hfresh
    exact ⟨hlabel ▸ searchEnds_freshLabel env.scope before, hfresh⟩
  · intro taken name
    obtain ⟨k, hk, hname, _, hbefore⟩ :=
      firstFree_eq_first taken (append_replicate_injective name 'n')
    exact ⟨searchEnds_countName taken name, k, hk, hname, QueryState.countName_not_mem name,
      hbefore⟩

/-- The second of two windows is labelled `win4`, since `win2` stands for the first one and `win3`
for a column; and a count beside the groups `n` and `nn` is named `nnn`. -/
theorem labels_found_beside_columns : ∃ rs first second,
    CompileEnv.compileAll ⟨.builtIn .postgres, numberScope ["win1", "win3"], {}⟩ .window
      [.call .sum [.column "x"] [], .call .negate [.call .rank [.column "win1"] []] []] =
        .ok (rs, [first, second]) ∧
    first.label = "win2" ∧ second.label = "win4" ∧
    SearchEnds (· ∈ ["x", "win1", "win3", "win2"]) (fun i : Nat => "win" ++ toString i) Nat.succ 2
      "win4" ∧
    QueryState.countName ["n", "nn"] "n" = "nnn" ∧ "nnn" ∉ ["n", "nn"] := by
  have hrun : ∃ rs first second,
      CompileEnv.compileAll ⟨.builtIn .postgres, numberScope ["win1", "win3"], {}⟩ .window
        [.call .sum [.column "x"] [], .call .negate [.call .rank [.column "win1"] []] []] =
          .ok (rs, [first, second]) ∧ first.label = "win2" ∧ second.label = "win4" :=
    ⟨_, _, _, rfl, rfl, rfl⟩
  obtain ⟨rs, first, second, hrun, hfirst, hsecond⟩ := hrun
  obtain ⟨_, hlabels, hcount⟩ := fresh_names_found
  obtain ⟨hends, _⟩ := hlabels _ _ _ rs _ hrun [first] second [] rfl
  obtain ⟨_, _, _, _, hfree, _⟩ := hcount ["n", "nn"] "n"
  have hname : QueryState.countName ["n", "nn"] "n" = "nnn" := rfl
  have hnames : (numberScope ["win1", "win3"]).names = ["x", "win1", "win3"] := rfl
  rw [hsecond, hnames, List.map_singleton, hfirst] at hends
  exact ⟨rs, first, second, hrun, hfirst, hsecond, hends, hname, hname ▸ hfree⟩

end PipelineSql
