import PipelineSql.Proofs.Lookup

/-!
# What compilation produces

Compilation threads the windows found so far through all arguments. An induction over a
successful run of it is stated once, with the cases that a run can have; what a builder can make
of its arguments is said once as well, for all templates.
-/

namespace PipelineSql

open Sql (Expr Ordered)

/-- A list processed from left to right, with a state that is handed on. -/
inductive Threaded {σ α β : Type} (R : σ → α → β → σ → Prop) :
    σ → List α → List β → σ → Prop where
  | nil {s : σ} : Threaded R s [] [] s
  | cons {s t u : σ} {a : α} {b : β} {as : List α} {bs : List β} :
      R s a b t → Threaded R t as bs u → Threaded R s (a :: as) (b :: bs) u

lemma Threaded.preserves {σ α β : Type} {R : σ → α → β → σ → Prop} {P : σ → Prop}
    (hR : ∀ s a b t, R s a b t → P s → P t) {s t : σ} {as : List α} {bs : List β}
    (h : Threaded R s as bs t) (hs : P s) : P t := by
  induction h with
  | nil => exact hs
  | cons hab _ ih => exact ih (hR _ _ _ _ hab hs)

lemma Threaded.imp {σ α β : Type} {R S : σ → α → β → σ → Prop}
    (hRS : ∀ s a b t, R s a b t → S s a b t) {s t : σ} {as : List α} {bs : List β}
    (h : Threaded R s as bs t) : Threaded S s as bs t := by
  induction h with
  | nil => exact .nil
  | cons hab _ ih => exact .cons (hRS _ _ _ _ hab) ih

/-- The cases of an induction over a successful compilation. -/
structure CompileCases (env : CompileEnv) (mode : Mode)
    (motive : List LabelledWindow → ColumnExpr → Expr → List LabelledWindow → Prop) : Prop where
  literal : ∀ v found, motive found (.literal v) (.value v) found
  name : ∀ e n x found, e.simpleName? = some n → n ∈ e.reads → env.scope.lookup n = .ok x →
    motive found e x found
  call : ∀ operation args keywords builder es ks found mid last r found',
    env.functions.lookup operation mode = .ok builder →
    Threaded motive found args es mid →
    Threaded (fun s k y t => k.1 = y.1 ∧ motive s k.2 y.2 t) mid keywords ks last →
    env.finishCall operation found.length last (builder ⟨es, ks⟩) = .ok (r, found') →
    motive found (.call operation args keywords) r found'

namespace CompileCases

variable {env : CompileEnv} {mode : Mode}
  {motive : List LabelledWindow → ColumnExpr → Expr → List LabelledWindow → Prop}

lemma mem_reads_of_simpleName {e : ColumnExpr} {n : String} (h : e.simpleName? = some n)
    (hl : ∀ v, e ≠ .literal v) : n ∈ e.reads := by
  unfold ColumnExpr.simpleName? at h
  split at h
  · cases h
    simp [ColumnExpr.reads]
  · cases h
    simp [ColumnExpr.reads]
  · exact absurd rfl (hl _)
  · cases h

lemma compileName_eq_ok {e : ColumnExpr} {found found' : List LabelledWindow} {r : Expr}
    (h : env.compileName found e = .ok (r, found')) :
    ∃ n, e.simpleName? = some n ∧ env.scope.lookup n = .ok r ∧ found' = found := by
  unfold CompileEnv.compileName at h
  split at h
  · rename_i n hn
    obtain ⟨x, hx, he⟩ := map_eq_ok.1 h
    cases he
    exact ⟨n, hn, hx, rfl⟩
  · cases h

mutual

/-- Induction over a successful compilation. -/
theorem compileFrom (cases : CompileCases env mode motive) : ∀ (e : ColumnExpr)
    {found found' : List LabelledWindow} {r : Expr},
    env.compileFrom mode found e = .ok (r, found') → motive found e r found'
  | .literal v, found, found', r, h => by
    simp only [CompileEnv.compileFrom, Except.ok.injEq, Prod.mk.injEq] at h
    obtain ⟨rfl, rfl⟩ := h
    exact cases.literal v found
  | .reference, found, found', r, h => by
    rw [CompileEnv.compileFrom] at h
    obtain ⟨n, hn, hx, rfl⟩ := compileName_eq_ok h
    exact cases.name _ n r _ hn (mem_reads_of_simpleName hn (by simp)) hx
  | .attr parent label, found, found', r, h => by
    rw [CompileEnv.compileFrom] at h
    obtain ⟨n, hn, hx, rfl⟩ := compileName_eq_ok h
    exact cases.name _ n r _ hn (mem_reads_of_simpleName hn (by simp)) hx
  | .index parent key, found, found', r, h => by
    rw [CompileEnv.compileFrom] at h
    obtain ⟨n, hn, hx, rfl⟩ := compileName_eq_ok h
    exact cases.name _ n r _ hn (mem_reads_of_simpleName hn (by simp)) hx
  | .slice start stop, found, found', r, h => by
    rw [CompileEnv.compileFrom] at h
    obtain ⟨n, hn, hx, rfl⟩ := compileName_eq_ok h
    exact cases.name _ n r _ hn (mem_reads_of_simpleName hn (by simp)) hx
  | .call operation args keywords, found, found', r, h => by
    simp only [CompileEnv.compileFrom, bind_eq_ok] at h
    obtain ⟨builder, hb, ⟨es, mid⟩, hargs, ⟨ks, last⟩, hkeys, hfin⟩ := h
    exact cases.call operation args keywords builder es ks found mid last r found' hb
      (cases.compileArgs args hargs) (cases.compileKeywords keywords hkeys) hfin

theorem compileArgs (cases : CompileCases env mode motive) : ∀ (as : List ColumnExpr)
    {found found' : List LabelledWindow} {es : List Expr},
    env.compileArgs mode found as = .ok (es, found') → Threaded motive found as es found'
  | [], found, found', es, h => by
    simp only [CompileEnv.compileArgs, Except.ok.injEq, Prod.mk.injEq] at h
    obtain ⟨rfl, rfl⟩ := h
    exact .nil
  | a :: as, found, found', es, h => by
    simp only [CompileEnv.compileArgs, bind_eq_ok, pure_eq_ok] at h
    obtain ⟨⟨e, mid⟩, ha, ⟨rest, last⟩, has, he⟩ := h
    cases he
    exact .cons (cases.compileFrom a ha) (cases.compileArgs as has)

theorem compileKeywords (cases : CompileCases env mode motive) :
    ∀ (as : List (String × ColumnExpr)) {found found' : List LabelledWindow}
    {ks : List (String × Expr)}, env.compileKeywords mode found as = .ok (ks, found') →
      Threaded (fun s k y t => k.1 = y.1 ∧ motive s k.2 y.2 t) found as ks found'
  | [], found, found', ks, h => by
    simp only [CompileEnv.compileKeywords, Except.ok.injEq, Prod.mk.injEq] at h
    obtain ⟨rfl, rfl⟩ := h
    exact .nil
  | (k, a) :: as, found, found', ks, h => by
    simp only [CompileEnv.compileKeywords, bind_eq_ok, pure_eq_ok] at h
    obtain ⟨⟨e, mid⟩, ha, ⟨rest, last⟩, has, he⟩ := h
    cases he
    exact .cons ⟨rfl, cases.compileFrom a ha⟩ (cases.compileKeywords as has)

end

end CompileCases

/-- What placing a window keeps of the windows found so far is kept by a compilation. -/
lemma placedCases (env : CompileEnv) (mode : Mode) {P : List LabelledWindow → Prop}
    (hplace : ∀ found call, P found → P (env.windows.place env.scope found call).2) :
    CompileCases env mode fun s _ _ t => P s → P t where
  literal := fun _ _ => id
  name := fun _ _ _ _ _ _ _ => id
  call := by
    intro operation args keywords builder es ks s mid last r t _ hargs hkeys hfin hs
    have hmid := hargs.preserves (fun _ _ _ _ hR => hR) hs
    have hlast := hkeys.preserves (fun _ _ _ _ hR => hR.2) hmid
    unfold CompileEnv.finishCall at hfin
    split at hfin
    · cases hfin
    · cases hfin
      exact hlast
    · rename_i call _
      split at hfin
      · cases hfin
      · have hplaced := hplace _ call hlast
        rw [Except.ok.inj hfin] at hplaced
        exact hplaced

/-- What holds of no windows, and is kept by placing one, holds of all windows that are found. -/
lemma windows_of_compileAll {env : CompileEnv} {mode : Mode} {P : List LabelledWindow → Prop}
    (hnil : P []) (hplace : ∀ found call, P found → P (env.windows.place env.scope found call).2)
    {as : List ColumnExpr} {es : List Expr} {found : List LabelledWindow}
    (h : env.compileAll mode as = .ok (es, found)) : P found :=
  ((placedCases env mode hplace).compileArgs as h).preserves (fun _ _ _ _ hR => hR) hnil

lemma compileFrom_of_simpleName {env : CompileEnv} {mode : Mode} {e : ColumnExpr} {n : String}
    {x : Expr} (found : List LabelledWindow) (hn : e.simpleName? = some n) (hreads : n ∈ e.reads)
    (hx : env.scope.lookup n = .ok x) : env.compileFrom mode found e = .ok (x, found) := by
  have hname : env.compileName found e = .ok (x, found) := by
    simp only [CompileEnv.compileName, hn, hx]
    rfl
  cases e with
  | literal v => simp [ColumnExpr.reads] at hreads
  | call operation args keywords => simp [ColumnExpr.simpleName?] at hn
  | reference | attr | index | slice => exact hname

/-- All compiled arguments of an operation, under keywords or not. -/
def Arguments.all (a : Arguments) : List Expr := a.args ++ a.keywords.map Prod.snd

/-- Properties of compiled expressions that a compilation establishes: `P` of every result, given
the windows found until then, `Q` of the results without a window of their own, and `W` of every
window. -/
structure CompileRules (env : CompileEnv) (mode : Mode)
    (P : List LabelledWindow → Expr → Prop) (Q : Expr → Prop) (W : LabelledWindow → Prop) :
    Prop where
  grow : ∀ found more r, P found r → P (found ++ more) r
  weaken : ∀ found r, Q r → P found r
  literal : ∀ v, Q (.value v)
  plain : ∀ operation builder a r, env.functions.lookup operation mode = .ok builder →
    builder a = .ok (.expression r) → (∀ x ∈ a.all, Q x) → Q r
  built : ∀ operation builder a r found, env.functions.lookup operation mode = .ok builder →
    builder a = .ok (.expression r) → (∀ x ∈ a.all, P found x) → P found r
  placed : ∀ operation builder a call found, env.functions.lookup operation mode = .ok builder →
    builder a = .ok (.window call) → (∀ x ∈ a.all, Q x) →
    P (env.windows.place env.scope found call).2 (env.windows.place env.scope found call).1 ∧
      W ⟨freshLabel env.scope found, .window call.function (env.windows.overClause call.kind)⟩

namespace CompileRules

variable {env : CompileEnv} {mode : Mode} {P : List LabelledWindow → Expr → Prop}
  {Q : Expr → Prop} {W : LabelledWindow → Prop}

/-- What the rules say about results, when the windows found grow from `found` to `found'`. -/
def Grown (P : List LabelledWindow → Expr → Prop) (Q : Expr → Prop) (W : LabelledWindow → Prop)
    (found : List LabelledWindow) (rs : List Expr) (found' : List LabelledWindow) : Prop :=
  ∃ new, found' = found ++ new ∧ (∀ r ∈ rs, P found' r) ∧ (new = [] → ∀ r ∈ rs, Q r) ∧
    ∀ w ∈ new, W w

lemma Grown.append {found mid last : List LabelledWindow} {rs ts : List Expr}
    (rules : CompileRules env mode P Q W) (hr : Grown P Q W found rs mid)
    (ht : Grown P Q W mid ts last) : Grown P Q W found (rs ++ ts) last := by
  obtain ⟨new, rfl, hP, hQ, hW⟩ := hr
  obtain ⟨more, rfl, hP', hQ', hW'⟩ := ht
  refine ⟨new ++ more, by simp, ?_, ?_, ?_⟩
  · intro r hr
    rcases List.mem_append.1 hr with hr | hr
    · exact rules.grow _ _ _ (hP r hr)
    · exact hP' r hr
  · intro hnil r hr
    obtain ⟨rfl, rfl⟩ := List.append_eq_nil_iff.1 hnil
    rcases List.mem_append.1 hr with hr | hr
    · exact hQ rfl r hr
    · exact hQ' rfl r hr
  · intro w hw
    rcases List.mem_append.1 hw with hw | hw
    · exact hW w hw
    · exact hW' w hw

lemma grown_of_threaded {α β : Type} {R : List LabelledWindow → α → β → List LabelledWindow → Prop}
    {good : α → Prop} (rules : CompileRules env mode P Q W) (out : β → Expr)
    (hR : ∀ s a b t, R s a b t → good a → Grown P Q W s [out b] t)
    {found last : List LabelledWindow} {as : List α} {bs : List β}
    (h : Threaded R found as bs last) (hgood : ∀ a ∈ as, good a) :
    Grown P Q W found (bs.map out) last := by
  induction h with
  | nil => exact ⟨[], by simp, by simp, by simp, by simp⟩
  | cons hab _ ih =>
    have hhead := hR _ _ _ _ hab (hgood _ List.mem_cons_self)
    exact hhead.append rules (ih fun a ha => hgood a (List.mem_cons_of_mem _ ha))

lemma mem_readsOfArgs {args : List ColumnExpr} {a : ColumnExpr} {n : String} (ha : a ∈ args)
    (hn : n ∈ a.reads) : n ∈ ColumnExpr.readsOfArgs args := by
  induction args with
  | nil => simp at ha
  | cons b args ih =>
    simp only [ColumnExpr.readsOfArgs, List.mem_append]
    rcases List.mem_cons.1 ha with rfl | ha
    · exact Or.inl hn
    · exact Or.inr (ih ha)

lemma mem_readsOfKeywords {keywords : List (String × ColumnExpr)} {k : String × ColumnExpr}
    {n : String} (hk : k ∈ keywords) (hn : n ∈ k.2.reads) :
    n ∈ ColumnExpr.readsOfKeywords keywords := by
  induction keywords with
  | nil => simp at hk
  | cons b keywords ih =>
    obtain ⟨label, b⟩ := b
    simp only [ColumnExpr.readsOfKeywords, List.mem_append]
    rcases List.mem_cons.1 hk with rfl | hk
    · exact Or.inl hn
    · exact Or.inr (ih hk)

/-- A call whose arguments obey the rules obeys them: a finished expression by its builder, and a
window because one inside its arguments is refused. -/
lemma grown_finishCall (rules : CompileRules env mode P Q W) {operation : Operation}
    {builder : Builder} {a : Arguments} {found last found' : List LabelledWindow} {r : Expr}
    (hb : env.functions.lookup operation mode = .ok builder)
    (hargs : Grown P Q W found a.all last)
    (h : env.finishCall operation found.length last (builder a) = .ok (r, found')) :
    Grown P Q W found [r] found' := by
  obtain ⟨new, rfl, hP, hQ, hW⟩ := hargs
  cases hres : builder a with
  | error fault => simp [CompileEnv.finishCall, hres] at h
  | ok built =>
    cases built with
    | expression e =>
      simp only [CompileEnv.finishCall, hres, Except.ok.injEq, Prod.mk.injEq] at h
      obtain ⟨rfl, rfl⟩ := h
      refine ⟨new, rfl, ?_, ?_, hW⟩
      · simpa using rules.built _ _ _ _ _ hb hres hP
      · intro hnil
        simpa using rules.plain _ _ _ _ hb hres (hQ hnil)
    | window call =>
      simp only [CompileEnv.finishCall, hres] at h
      split at h
      · cases h
      · rename_i hlen
        have hnil : new = [] := by
          rw [List.length_append] at hlen
          exact List.length_eq_zero_iff.1 (by omega)
        subst hnil
        obtain ⟨hvis, hwin⟩ := rules.placed _ _ _ call found hb hres (hQ rfl)
        simp only [List.append_nil, Except.ok.injEq] at h
        rw [h] at hvis
        have hfound : found' = found ++ [⟨freshLabel env.scope found,
            .window call.function (env.windows.overClause call.kind)⟩] :=
          (congrArg Prod.snd h).symm
        refine ⟨_, hfound, by simpa using hvis, by simp, ?_⟩
        simpa using hwin

/-- The rules are kept by every case of a compilation whose columns obey them. -/
lemma cases (rules : CompileRules env mode P Q W) : CompileCases env mode fun s e r t =>
    (∀ n ∈ e.reads, ∀ x, env.scope.lookup n = .ok x → Q x) → Grown P Q W s [r] t where
  literal := by
    intro v s _
    have hq := rules.literal v
    exact ⟨[], by simp, by simpa using rules.weaken s _ hq, by simpa using hq, by simp⟩
  name := by
    intro e n x s _ hn hx hreads
    have hq := hreads n hn x hx
    exact ⟨[], by simp, by simpa using rules.weaken s _ hq, by simpa using hq, by simp⟩
  call := by
    intro operation args keywords builder es ks s mid last r t hb hargs hkeys hfin hreads
    have hq₁ : ∀ a ∈ args, ∀ n ∈ a.reads, ∀ x, env.scope.lookup n = .ok x → Q x := by
      intro a ha n hn
      refine hreads n ?_
      simp only [ColumnExpr.reads, List.mem_append]
      exact Or.inl (mem_readsOfArgs ha hn)
    have hq₂ : ∀ k ∈ keywords, ∀ n ∈ k.2.reads, ∀ x, env.scope.lookup n = .ok x → Q x := by
      intro k hk n hn
      refine hreads n ?_
      simp only [ColumnExpr.reads, List.mem_append]
      exact Or.inr (mem_readsOfKeywords hk hn)
    have h₁ := grown_of_threaded rules id (fun _ _ _ _ hR hg => hR hg) hargs hq₁
    have h₂ := grown_of_threaded rules Prod.snd (fun _ _ _ _ hR hg => hR.2 hg) hkeys hq₂
    refine grown_finishCall rules hb ?_ hfin
    simpa [Arguments.all] using h₁.append rules h₂

theorem compileFrom (rules : CompileRules env mode P Q W) {e : ColumnExpr}
    {found found' : List LabelledWindow} {r : Expr}
    (h : env.compileFrom mode found e = .ok (r, found'))
    (hreads : ∀ n ∈ e.reads, ∀ x, env.scope.lookup n = .ok x → Q x) :
    Grown P Q W found [r] found' :=
  rules.cases.compileFrom e h hreads

theorem compileAll (rules : CompileRules env mode P Q W) {es : List ColumnExpr}
    {found : List LabelledWindow} {rs : List Expr}
    (h : env.compileAll mode es = .ok (rs, found))
    (hreads : ∀ e ∈ es, ∀ n ∈ e.reads, ∀ x, env.scope.lookup n = .ok x → Q x) :
    (∀ r ∈ rs, P found r) ∧ ∀ w ∈ found, W w := by
  have hrun := rules.cases.compileArgs es h
  have hgrown := grown_of_threaded rules id (fun _ _ _ _ hR hg => hR hg) hrun hreads
  obtain ⟨new, hnew, hP, _, hW⟩ := hgrown
  obtain rfl : found = new := by simpa using hnew
  exact ⟨by simpa using hP, hW⟩

theorem compileExpr (rules : CompileRules env mode P Q W) {e : ColumnExpr} {r : Expr}
    (h : env.compileExpr mode e = .ok r)
    (hreads : ∀ n ∈ e.reads, ∀ x, env.scope.lookup n = .ok x → Q x) :
    ∃ found, P found r := by
  obtain ⟨⟨r', found⟩, hrun, rfl⟩ := map_eq_ok.1 h
  obtain ⟨_, _, hP, _, _⟩ := rules.compileFrom hrun hreads
  exact ⟨found, hP _ (by simp)⟩

end CompileRules

end PipelineSql
