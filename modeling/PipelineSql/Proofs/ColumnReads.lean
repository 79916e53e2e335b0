import PipelineSql.Proofs.Compiling

/-!
# The columns that an expression reads

A compilation asks its scope for the columns that the expression reads and for no others. Renaming
an expression in the form in which it is compiled renames what it reads.
-/

namespace PipelineSql

open Sql (Expr Select TableAlias)

lemma FunctionTable.lookup_ne_unknown {f : FunctionTable} {operation : Operation} {mode : Mode}
    {name : String} {available : List String} :
    f.lookup operation mode ≠ .error (.unknownColumn name available) := by
  intro h
  unfold lookup at h
  split at h
  · cases h
  · cases h

namespace ColumnExpr

section Induction

set_option linter.unusedSectionVars false

variable {motive : ColumnExpr → Prop}
  (reference : motive .reference)
  (attr : ∀ parent name, motive parent → motive (.attr parent name))
  (call : ∀ operation args keywords, (∀ a ∈ args, motive a) → (∀ k ∈ keywords, motive k.2) →
    motive (.call operation args keywords))
  (index : ∀ parent key, motive parent → motive key → motive (.index parent key))
  (slice : ∀ start stop, (∀ e ∈ start, motive e) → (∀ e ∈ stop, motive e) →
    motive (.slice start stop))
  (literal : ∀ v, motive (.literal v))

include reference attr call index slice literal

mutual

/-- Induction over an expression, with what is known of all parts in lists. -/
@[elab_as_elim]
theorem induct : ∀ e, motive e
  | .reference => reference
  | .attr parent name => attr parent name (induct parent)
  | .call operation args keywords =>
    call operation args keywords (inductArgs args) (inductKeywords keywords)
  | .index parent key => index parent key (induct parent) (induct key)
  | .slice start stop => slice start stop (inductBound start) (inductBound stop)
  | .literal v => literal v

theorem inductArgs : ∀ (args : List ColumnExpr), ∀ a ∈ args, motive a
  | [] => List.forall_mem_nil _
  | a :: as => List.forall_mem_cons.2 ⟨induct a, inductArgs as⟩

theorem inductKeywords : ∀ (keywords : List (String × ColumnExpr)), ∀ k ∈ keywords, motive k.2
  | [] => List.forall_mem_nil _
  | (_, a) :: as => List.forall_mem_cons.2 ⟨induct a, inductKeywords as⟩

theorem inductBound : ∀ (bound : Option ColumnExpr), ∀ e ∈ bound, motive e
  | none => by simp
  | some e => by simpa using induct e

end

end Induction

section Views

variable (f : ColumnExpr → ColumnExpr)

@[simp] lemma mapArgs_eq (args : List ColumnExpr) : mapArgs f args = args.map (mapNodes f) := by
  induction args with
  | nil => rfl
  | cons a as ih => rw [mapArgs, ih, List.map_cons]

@[simp] lemma mapKeywords_eq (keywords : List (String × ColumnExpr)) :
    mapKeywords f keywords = keywords.map fun k => (k.1, k.2.mapNodes f) := by
  induction keywords with
  | nil => rfl
  | cons k ks ih => rw [mapKeywords, ih, List.map_cons]

@[simp] lemma mapBound_eq (bound : Option ColumnExpr) :
    mapBound f bound = bound.map (mapNodes f) := by
  cases bound <;> rfl

@[simp] lemma readsOfArgs_eq (args : List ColumnExpr) : readsOfArgs args = args.flatMap reads := by
  induction args with
  | nil => rfl
  | cons a as ih => rw [readsOfArgs, ih, List.flatMap_cons]

@[simp] lemma readsOfKeywords_eq (keywords : List (String × ColumnExpr)) :
    readsOfKeywords keywords = keywords.flatMap fun k => k.2.reads := by
  induction keywords with
  | nil => rfl
  | cons k ks ih => rw [readsOfKeywords, ih, List.flatMap_cons]

@[simp] lemma readsOfBound_eq (bound : Option ColumnExpr) :
    readsOfBound bound = bound.toList.flatMap reads := by
  cases bound with
  | none => rfl
  | some e => simp [readsOfBound]

end Views

section Shaped

attribute [local simp] mapNodes

/-- No part of the expression is a subscript of the table by a text. -/
inductive Shaped : ColumnExpr → Prop where
  | reference : Shaped .reference
  | attr {parent : ColumnExpr} {name : String} : Shaped parent → Shaped (.attr parent name)
  | call {operation : Operation} {args : List ColumnExpr}
      {keywords : List (String × ColumnExpr)} : (∀ a ∈ args, Shaped a) →
      (∀ k ∈ keywords, Shaped k.2) → Shaped (.call operation args keywords)
  | index {parent key : ColumnExpr} : Shaped parent → Shaped key →
      (parent = .reference → ∀ name, key ≠ .literal (.str name)) → Shaped (.index parent key)
  | slice {start stop : Option ColumnExpr} : (∀ e ∈ start, Shaped e) → (∀ e ∈ stop, Shaped e) →
      Shaped (.slice start stop)
  | literal {v : Literal} : Shaped (.literal v)

lemma shaped_mapArgs {f : ColumnExpr → ColumnExpr} {operation : Operation}
    {args : List ColumnExpr} {keywords : List (String × ColumnExpr)}
    (hargs : ∀ a ∈ args, (a.mapNodes f).Shaped)
    (hkeywords : ∀ k ∈ keywords, (k.2.mapNodes f).Shaped) :
    (call operation (mapArgs f args) (mapKeywords f keywords)).Shaped := by
  rw [mapArgs_eq, mapKeywords_eq]
  refine .call ?_ ?_
  · simpa using hargs
  · intro k hk
    obtain ⟨l, hl, rfl⟩ := List.mem_map.1 hk
    exact hkeywords l hl

lemma shaped_mapBound {f : ColumnExpr → ColumnExpr} {start stop : Option ColumnExpr}
    (hstart : ∀ e ∈ start, (e.mapNodes f).Shaped) (hstop : ∀ e ∈ stop, (e.mapNodes f).Shaped) :
    (slice (mapBound f start) (mapBound f stop)).Shaped := by
  rw [mapBound_eq, mapBound_eq]
  refine .slice ?_ ?_
  · simpa using hstart
  · simpa using hstop

lemma shaped_shapeNode_attr {parent : ColumnExpr} {name : String} (h : parent.Shaped) :
    (shapeNode (.attr parent name)).Shaped := by
  unfold shapeNode
  split
  · exact .attr .reference
  · rename_i he
    cases he
    split
    · exact h
    · exact .attr h
  · rename_i he
    cases he
  · exact .attr h

lemma shaped_shapeNode_index {parent key : ColumnExpr} (hp : parent.Shaped) (hk : key.Shaped) :
    (shapeNode (.index parent key)).Shaped := by
  unfold shapeNode
  split
  · rename_i he
    cases he
  · rename_i he
    cases he
  · exact .attr .reference
  · rename_i hother
    refine .index hp hk ?_
    rintro rfl name rfl
    exact hother name rfl

/-- The form in which expressions are compiled has no subscripts of the table. -/
lemma shaped_shape (e : ColumnExpr) : e.shape.Shaped := by
  unfold shape
  induction e using induct with
  | reference => exact .reference
  | attr parent name hp => exact shaped_shapeNode_attr hp
  | call operation args keywords hargs hkeywords => exact shaped_mapArgs hargs hkeywords
  | index parent key hp hk => exact shaped_shapeNode_index hp hk
  | slice start stop hstart hstop => exact shaped_mapBound hstart hstop
  | literal v => exact .literal

/-- Renaming turns nothing else into the table or into a literal. -/
lemma eq_of_mapNodes_renameNode {f : String → String} {e leaf : ColumnExpr}
    (hleaf : leaf = .reference ∨ ∃ v, leaf = .literal v)
    (h : e.mapNodes (renameNode f) = leaf) : e = leaf := by
  cases e with
  | reference | literal => exact h
  | attr parent name =>
    rw [mapNodes] at h
    unfold renameNode at h
    split at h <;> subst h <;> simp at hleaf
  | call | index | slice =>
    subst h
    simp [renameNode] at hleaf

lemma renameNode_attr_of_ne {f : String → String} {parent : ColumnExpr} {name : String}
    (h : parent ≠ .reference) : renameNode f (.attr parent name) = .attr parent name := by
  cases parent with
  | reference => exact absurd rfl h
  | attr | call | index | slice | literal => rfl

lemma reads_attr_of_ne {parent : ColumnExpr} {name : String} (h : parent ≠ .reference) :
    (attr parent name).reads = parent.reads := by
  cases parent with
  | reference => exact absurd rfl h
  | attr | call | index | slice | literal => rfl

lemma reads_index_of_ne {parent key : ColumnExpr}
    (h : parent = .reference → ∀ name, key ≠ .literal (.str name)) :
    (index parent key).reads = parent.reads ++ key.reads := by
  rw [reads]
  rintro name rfl rfl
  exact h rfl name rfl

lemma subscript_renamed {f : String → String} {parent key : ColumnExpr}
    (h : parent = .reference → ∀ name, key ≠ .literal (.str name)) :
    parent.mapNodes (renameNode f) = .reference →
      ∀ name, key.mapNodes (renameNode f) ≠ .literal (.str name) := by
  intro hparent name hkey
  exact h (eq_of_mapNodes_renameNode (.inl rfl) hparent) name
    (eq_of_mapNodes_renameNode (.inr ⟨_, rfl⟩) hkey)

lemma Shaped.rename {e : ColumnExpr} (h : e.Shaped) (f : String → String) :
    (e.rename f).Shaped := by
  unfold ColumnExpr.rename
  induction h with
  | reference => exact .reference
  | literal => exact .literal
  | @attr parent name _ ih =>
    by_cases hparent : parent = .reference
    · subst hparent
      exact .attr .reference
    · have hrenamed : parent.mapNodes (renameNode f) ≠ .reference := fun he =>
        hparent (eq_of_mapNodes_renameNode (.inl rfl) he)
      rw [mapNodes, renameNode_attr_of_ne hrenamed]
      exact .attr ih
  | call _ _ hargs hkeywords => exact shaped_mapArgs hargs hkeywords
  | index _ _ hne hp hk => exact .index hp hk (subscript_renamed hne)
  | slice _ _ hstart hstop => exact shaped_mapBound hstart hstop

lemma Shaped.reads_rename {e : ColumnExpr} (h : e.Shaped) (f : String → String) :
    (e.rename f).reads = e.reads.map f := by
  unfold ColumnExpr.rename
  induction h with
  | reference | literal => rfl
  | @attr parent name _ ih =>
    by_cases hparent : parent = .reference
    · subst hparent
      rfl
    · have hrenamed : parent.mapNodes (renameNode f) ≠ .reference := fun he =>
        hparent (eq_of_mapNodes_renameNode (.inl rfl) he)
      rw [mapNodes, renameNode_attr_of_ne hrenamed, reads_attr_of_ne hrenamed,
        reads_attr_of_ne hparent, ih]
  | @call operation args keywords _ _ hargs hkeywords =>
    have ha : (args.map (mapNodes (renameNode f))).flatMap reads = args.flatMap fun a =>
        a.reads.map f := by
      rw [List.flatMap_map]
      exact List.flatMap_congr hargs
    have hk : (keywords.map fun k => (k.1, k.2.mapNodes (renameNode f))).flatMap
        (fun k => k.2.reads) = keywords.flatMap fun k => k.2.reads.map f := by
      rw [List.flatMap_map]
      exact List.flatMap_congr hkeywords
    rw [mapNodes, mapArgs_eq, mapKeywords_eq, renameNode, reads, reads, readsOfArgs_eq,
      readsOfKeywords_eq, readsOfArgs_eq, readsOfKeywords_eq, ha, hk]
    · simp [List.map_flatMap]
    · simp
  | @index parent key _ _ hne hp hk =>
    rw [reads_index_of_ne hne, List.map_append, ← hp, ← hk]
    exact reads_index_of_ne (subscript_renamed hne)
  | @slice start stop _ _ hstart hstop =>
    have hbound : ∀ bound : Option ColumnExpr,
        (∀ e ∈ bound, (e.mapNodes (renameNode f)).reads = e.reads.map f) →
        (bound.map (mapNodes (renameNode f))).toList.flatMap reads =
          bound.toList.flatMap fun e => e.reads.map f := by
      intro bound h
      cases bound with
      | none => rfl
      | some e => simp [h e rfl]
    rw [mapNodes, mapBound_eq, mapBound_eq, renameNode, reads, reads, readsOfBound_eq,
      readsOfBound_eq, readsOfBound_eq, readsOfBound_eq, hbound start hstart, hbound stop hstop]
    · simp [List.map_flatMap]
    · simp

end Shaped

section Renaming

lemma rename_call (f : String → String) (operation : Operation) (args : List ColumnExpr)
    (keywords : List (String × ColumnExpr)) :
    (call operation args keywords).rename f = .call operation (args.map (rename f))
      (keywords.map fun k => (k.1, k.2.rename f)) := by
  rw [rename, mapNodes, mapArgs_eq, mapKeywords_eq]
  rfl

lemma rename_slice (f : String → String) (start stop : Option ColumnExpr) :
    (slice start stop).rename f = .slice (start.map (rename f)) (stop.map (rename f)) := by
  rw [rename, mapNodes, mapBound_eq, mapBound_eq]
  rfl

lemma rename_attr_of_ne (f : String → String) {parent : ColumnExpr} {name : String}
    (h : parent ≠ .reference) : (attr parent name).rename f = .attr (parent.rename f) name :=
  renameNode_attr_of_ne fun he => h (eq_of_mapNodes_renameNode (.inl rfl) he)

/-- Renaming twice is renaming once. -/
lemma rename_rename (f g : String → String) (e : ColumnExpr) :
    (e.rename f).rename g = e.rename fun n => g (f n) := by
  induction e using induct with
  | reference | literal => rfl
  | attr parent name ih =>
    by_cases hparent : parent = .reference
    · subst hparent
      rfl
    · have hrenamed : parent.rename f ≠ .reference := fun he =>
        hparent (eq_of_mapNodes_renameNode (.inl rfl) he)
      rw [rename_attr_of_ne f hparent, rename_attr_of_ne g hrenamed, rename_attr_of_ne _ hparent, ih]
  | call operation args keywords hargs hkeywords =>
    simp only [rename_call, List.map_map]
    congr 1
    · exact List.map_congr_left hargs
    · exact List.map_congr_left fun k hk => Prod.ext rfl (hkeywords k hk)
  | index parent key hp hk => exact congrArg₂ index hp hk
  | slice start stop hstart hstop =>
    simp only [rename_slice, Option.map_map]
    exact congrArg₂ slice (Option.map_congr hstart) (Option.map_congr hstop)

/-- A renaming that keeps the columns of an expression keeps the expression. -/
lemma rename_eq_self {f : String → String} {e : ColumnExpr} (h : ∀ n ∈ e.reads, f n = n) :
    e.rename f = e := by
  induction e using induct with
  | reference | literal => rfl
  | attr parent name ih =>
    by_cases hparent : parent = .reference
    · subst hparent
      exact congrArg (attr reference) (h name (by simp [reads]))
    · rw [reads_attr_of_ne hparent] at h
      rw [rename_attr_of_ne f hparent, ih h]
  | call operation args keywords hargs hkeywords =>
    rw [reads, readsOfArgs_eq, readsOfKeywords_eq] at h
    simp only [List.forall_mem_append, List.mem_flatMap] at h
    rw [rename_call]
    congr 1
    · refine (List.map_congr_left fun a ha => ?_).trans (List.map_id args)
      exact hargs a ha fun n hn => h.1 n ⟨a, ha, hn⟩
    · refine (List.map_congr_left fun k hk => ?_).trans (List.map_id keywords)
      exact Prod.ext rfl (hkeywords k hk fun n hn => h.2 n ⟨k, hk, hn⟩)
  | index parent key hp hk =>
    by_cases hsubscript : parent = .reference ∧ ∃ name, key = .literal (.str name)
    · obtain ⟨rfl, name, rfl⟩ := hsubscript
      rfl
    · rw [reads_index_of_ne fun he name hkey => hsubscript ⟨he, name, hkey⟩] at h
      simp only [List.forall_mem_append] at h
      exact congrArg₂ index (hp h.1) (hk h.2)
  | slice start stop hstart hstop =>
    rw [reads, readsOfBound_eq, readsOfBound_eq] at h
    simp only [List.forall_mem_append, List.mem_flatMap, Option.mem_toList] at h
    rw [rename_slice]
    refine congrArg₂ slice ?_ ?_
    · refine (Option.map_congr fun e he => ?_).trans Option.map_id'
      exact hstart e he fun n hn => h.1 n ⟨e, he, hn⟩
    · refine (Option.map_congr fun e he => ?_).trans Option.map_id'
      exact hstop e he fun n hn => h.2 n ⟨e, he, hn⟩

end Renaming

lemma reads_of_simpleName {e : ColumnExpr} {n : String} (h : e.simpleName? = some n) :
    ∀ m ∈ e.reads, m = n := by
  unfold simpleName? at h
  split at h
  · cases h
    simp [reads]
  · cases h
    simp [reads]
  · simp [reads]
  · cases h

end ColumnExpr

namespace CompileEnv

variable {env : CompileEnv} {mode : Mode}

lemma resolved_of_threaded {α β : Type} {σ : Type} {reads : α → List String} {scope : Scope}
    {R : σ → α → β → σ → Prop}
    (hR : ∀ s a b t, R s a b t → ∀ n ∈ reads a, ∃ x, scope.lookup n = .ok x)
    {s t : σ} {as : List α} {bs : List β} (h : Threaded R s as bs t) :
    ∀ n ∈ as.flatMap reads, ∃ x, scope.lookup n = .ok x := by
  induction h with
  | nil => simp
  | cons hab _ ih =>
    intro n hn
    rw [List.flatMap_cons, List.mem_append] at hn
    rcases hn with hn | hn
    · exact hR _ _ _ _ hab n hn
    · exact ih n hn

/-- A successful compilation has found every column that the expression reads. -/
lemma resolvedCases : CompileCases env mode fun _ e _ _ =>
    ∀ n ∈ e.reads, ∃ x, env.scope.lookup n = .ok x where
  literal := by simp [ColumnExpr.reads]
  name := by
    intro e n x found hn _ hx m hm
    rw [ColumnExpr.reads_of_simpleName hn m hm]
    exact ⟨x, hx⟩
  call := by
    intro operation args keywords builder es ks found mid last r found' _ hargs hkeywords _ n hn
    rw [ColumnExpr.reads, ColumnExpr.readsOfArgs_eq, ColumnExpr.readsOfKeywords_eq,
      List.mem_append] at hn
    rcases hn with hn | hn
    · exact resolved_of_threaded (fun _ _ _ _ h => h) hargs n hn
    · exact resolved_of_threaded (fun _ _ _ _ h => h.2) hkeywords n hn

lemma resolved_of_compileExpr {e : ColumnExpr} {r : Expr} (h : env.compileExpr mode e = .ok r) :
    ∀ n ∈ e.reads, ∃ x, env.scope.lookup n = .ok x := by
  obtain ⟨⟨r', found⟩, hrun, _⟩ := map_eq_ok.1 h
  exact resolvedCases.compileFrom e hrun

lemma compileName_unknown {e : ColumnExpr} {found : List LabelledWindow} {name : String}
    {available : List String} (hl : ∀ v, e ≠ .literal v)
    (h : env.compileName found e = .error (.unknownColumn name available)) :
    name ∈ e.reads ∧ name ∉ env.scope.names := by
  unfold compileName at h
  split at h
  · rename_i n hn
    obtain ⟨rfl, hnames⟩ := Scope.lookup_unknown (map_eq_error.1 h)
    exact ⟨CompileCases.mem_reads_of_simpleName hn hl, hnames⟩
  · cases h

lemma finishCall_ne_unknown {operation : Operation} {outer : Nat} {found : List LabelledWindow}
    {built : Except ArgumentFault Built} {name : String} {available : List String} :
    env.finishCall operation outer found built ≠ .error (.unknownColumn name available) := by
  intro h
  unfold finishCall at h
  split at h
  · cases h
  · cases h
  · split at h
    · cases h
    · cases h

mutual

/-- A compilation misses no column but one that the expression reads and the scope lacks. -/
theorem compileFrom_unknown : ∀ (e : ColumnExpr) {found : List LabelledWindow} {name : String}
    {available : List String},
    env.compileFrom mode found e = .error (.unknownColumn name available) →
      name ∈ e.reads ∧ name ∉ env.scope.names
  | .literal v, found, name, available, h => by
    rw [compileFrom] at h
    cases h
  | .reference, found, name, available, h => by
    rw [compileFrom] at h
    exact compileName_unknown (by simp) h
  | .attr parent label, found, name, available, h => by
    rw [compileFrom] at h
    exact compileName_unknown (by simp) h
  | .index parent key, found, name, available, h => by
    rw [compileFrom] at h
    exact compileName_unknown (by simp) h
  | .slice start stop, found, name, available, h => by
    rw [compileFrom] at h
    exact compileName_unknown (by simp) h
  | .call operation args keywords, found, name, available, h => by
    rw [compileFrom] at h
    rw [ColumnExpr.reads, List.mem_append]
    rcases bind_eq_error.1 h with hlookup | ⟨builder, _, h⟩
    · exact absurd hlookup FunctionTable.lookup_ne_unknown
    rcases bind_eq_error.1 h with hargs | ⟨⟨es, mid⟩, _, h⟩
    · obtain ⟨hreads, hnames⟩ := compileArgs_unknown args hargs
      exact ⟨Or.inl hreads, hnames⟩
    rcases bind_eq_error.1 h with hkeywords | ⟨⟨ks, last⟩, _, h⟩
    · obtain ⟨hreads, hnames⟩ := compileKeywords_unknown keywords hkeywords
      exact ⟨Or.inr hreads, hnames⟩
    · exact absurd h finishCall_ne_unknown

theorem compileArgs_unknown : ∀ (args : List ColumnExpr) {found : List LabelledWindow}
    {name : String} {available : List String},
    env.compileArgs mode found args = .error (.unknownColumn name available) →
      name ∈ ColumnExpr.readsOfArgs args ∧ name ∉ env.scope.names
  | [], found, name, available, h => by
    rw [compileArgs] at h
    cases h
  | a :: as, found, name, available, h => by
    rw [compileArgs] at h
    rw [ColumnExpr.readsOfArgs, List.mem_append]
    rcases bind_eq_error.1 h with hhead | ⟨⟨e, mid⟩, _, h⟩
    · obtain ⟨hreads, hnames⟩ := compileFrom_unknown a hhead
      exact ⟨Or.inl hreads, hnames⟩
    rcases bind_eq_error.1 h with htail | ⟨_, _, h⟩
    · obtain ⟨hreads, hnames⟩ := compileArgs_unknown as htail
      exact ⟨Or.inr hreads, hnames⟩
    · cases h

theorem compileKeywords_unknown : ∀ (keywords : List (String × ColumnExpr))
    {found : List LabelledWindow} {name : String} {available : List String},
    env.compileKeywords mode found keywords = .error (.unknownColumn name available) →
      name ∈ ColumnExpr.readsOfKeywords keywords ∧ name ∉ env.scope.names
  | [], found, name, available, h => by
    rw [compileKeywords] at h
    cases h
  | (k, a) :: as, found, name, available, h => by
    rw [compileKeywords] at h
    rw [ColumnExpr.readsOfKeywords, List.mem_append]
    rcases bind_eq_error.1 h with hhead | ⟨⟨e, mid⟩, _, h⟩
    · obtain ⟨hreads, hnames⟩ := compileFrom_unknown a hhead
      exact ⟨Or.inl hreads, hnames⟩
    rcases bind_eq_error.1 h with htail | ⟨_, _, h⟩
    · obtain ⟨hreads, hnames⟩ := compileKeywords_unknown as htail
      exact ⟨Or.inr hreads, hnames⟩
    · cases h

end

lemma compileExpr_unknown {e : ColumnExpr} {name : String} {available : List String}
    (h : env.compileExpr mode e = .error (.unknownColumn name available)) :
    name ∈ e.reads ∧ name ∉ env.scope.names :=
  compileFrom_unknown e (map_eq_error.1 h)

end CompileEnv

end PipelineSql
