import PipelineSql.Proofs.AmbiguousColumns
import PipelineSql.Proofs.Substitution

/-!
# Windows taken out of conditions

Where SQL allows no windows they are taken out of expressions and read by labels. Compiling with the
windows where they stand finds the same windows, under the same labels, and fails on the same
expressions; putting each window back in the place of its label gives the same results.
-/

namespace PipelineSql

open Sql (Expr Ordered Select ColumnRef TableAlias AliasCounter)

/-- The window that a column of a table refers to by its label. -/
def windowOf? (table : TableAlias) (found : List LabelledWindow) : ColumnRef → Option Expr
  | .labelled (.aliased a) label =>
    if a = table then (found.find? fun w => w.label = label).map LabelledWindow.expression else none
  | _ => none

/-- The window that a column refers to by its label, or else the column. -/
def putBack (table : TableAlias) (found : List LabelledWindow) (r : ColumnRef) : Expr :=
  (windowOf? table found r).getD (.column r)

/-- A reference that does not go through a table. -/
def Elsewhere (table : TableAlias) (r : ColumnRef) : Prop := r.table ≠ .aliased table

section PutBack

variable {table : TableAlias} {found : List LabelledWindow} {r : ColumnRef} {e : Expr}

lemma windowOf?_labelled (label : String) : windowOf? table found (.labelled (.aliased table) label) =
    (found.find? fun w => w.label = label).map LabelledWindow.expression := by
  simp [windowOf?]

lemma putBack_elsewhere (h : Elsewhere table r) : putBack table found r = .column r := by
  have hnone : windowOf? table found r = none := by
    unfold windowOf?
    split
    · rename_i a label
      have ha : a ≠ table := fun he => h (congrArg _ he)
      rw [if_neg ha]
    · rfl
  rw [putBack, hnone]
  rfl

/-- Labels go on standing for the windows that they were given to. -/
lemma putBack_append (new : List LabelledWindow) {w : LabelledWindow} (hw : w ∈ found) :
    putBack table (found ++ new) (.labelled (.aliased table) w.label) =
      putBack table found (.labelled (.aliased table) w.label) := by
  have hsome : (found.find? fun v => v.label = w.label).isSome = true :=
    List.find?_isSome.2 ⟨w, hw, by simp⟩
  rw [putBack, putBack, windowOf?_labelled, windowOf?_labelled, List.find?_append,
    Option.or_of_isSome hsome]

lemma putBack_ne_value (h : ∀ w ∈ found, w.expression.isWindow = true) (v : Literal) :
    putBack table found r ≠ .value v := by
  unfold putBack windowOf?
  split
  · split
    · cases hfind : found.find? _ with
      | none => simp
      | some w =>
        intro he
        have hwindow := h w (List.mem_of_find?_eq_some hfind)
        simp only [Option.map_some, Option.getD_some] at he
        rw [he] at hwindow
        cases hwindow
    · simp
  · simp

lemma bindColumns_putBack_elsewhere (h : e.Within (Elsewhere table)) :
    e.bindColumns (putBack table found) = e :=
  Expr.bindColumns_eq_self fun r hr => putBack_elsewhere (h r hr)

end PutBack

section Labels

/-- The number of a label can be read off it. -/
lemma label_injective : Function.Injective fun i : Nat => "win" ++ toString i := by
  intro i j hij
  have hdigits : Nat.toDigits 10 i = Nat.toDigits 10 j := by
    have hchars := congrArg String.toList hij
    simpa [String.toList_append, Nat.toString_eq_repr] using hchars
  rw [← Nat.ofDigitChars_ten_toDigits (n := i), hdigits, Nat.ofDigitChars_ten_toDigits]

lemma label_from_injective (start : Nat) :
    Function.Injective fun i : Nat => "win" ++ toString (start + i) :=
  fun _ _ hij => Nat.add_left_cancel (label_injective hij)

/-- A label is taken neither by a column nor by an earlier window. -/
lemma freshLabel_not_mem (scope : Scope) (found : List LabelledWindow) :
    freshLabel scope found ∉ scope.names ++ found.map LabelledWindow.label :=
  firstFree_not_mem (label_from_injective _)

end Labels

namespace CompileEnv

/-- The same environment, with windows where they appear. -/
def inPlace (env : CompileEnv) : CompileEnv :=
  { env with windows := { env.windows with placement := .inPlace } }

/-- An environment that takes windows out of expressions and lets a table, through which nothing
else goes, expose them. -/
structure Hoists (env : CompileEnv) (table : TableAlias) : Prop where
  placement : env.windows.placement = .hoisted table
  standard : env.functions.Standard
  scope : ∀ n x, env.scope.lookup n = .ok x → x.Within (Elsewhere table)
  partitionBy : ∀ e ∈ env.windows.partitionBy, e.Within (Elsewhere table)
  orderBy : ∀ t ∈ env.windows.orderBy, t.target.Within (Elsewhere table)

/-- What the windows found so far say about an expression: its columns go through other tables, or
are labels of these windows. -/
def Labels (table : TableAlias) (found : List LabelledWindow) : Expr → Prop :=
  Expr.Within fun r => Elsewhere table r ∨ ∃ w ∈ found, r = .labelled (.aliased table) w.label

namespace Hoists

variable {env : CompileEnv} {table : TableAlias} {mode : Mode}

/-- A window that is completed from the columns of the scope. -/
def Complete (table : TableAlias) (w : LabelledWindow) : Prop :=
  w.expression.isWindow = true ∧ w.expression.Within (Elsewhere table)

lemma rules (h : env.Hoists table) (mode : Mode) :
    CompileRules env mode (Labels table) (Expr.Within (Elsewhere table)) (Complete table) := by
  have hrules := scopingRules env mode h.standard.passesReferences h.partitionBy h.orderBy
  have hlabels : (fun found => Expr.Within fun r => Elsewhere table r ∨
      ∃ t, env.windows.placement = .hoisted t ∧ ∃ w ∈ found, r = .labelled (.aliased t) w.label) =
      Labels table := by
    funext found
    simp [Labels, h.placement]
  rw [hlabels] at hrules
  refine ⟨hrules.grow, hrules.weaken, hrules.literal, hrules.plain, hrules.built, ?_⟩
  intro operation builder a call found hb hcall ha
  obtain ⟨hvisible, hwindow⟩ := hrules.placed operation builder a call found hb hcall ha
  exact ⟨hvisible, rfl, hwindow⟩

/-- What is known of compiled expressions and of the windows found with them. -/
abbrev Grows (table : TableAlias) (found : List LabelledWindow) (es : List Expr)
    (found' : List LabelledWindow) : Prop :=
  CompileRules.Grown (Labels table) (Expr.Within (Elsewhere table)) (Complete table) found es found'

lemma grows_args (h : env.Hoists table) {as : List ColumnExpr} {es : List Expr}
    {found found' : List LabelledWindow} (hrun : env.compileArgs mode found as = .ok (es, found')) :
    Grows table found es found' := by
  have hthreaded := (h.rules mode).cases.compileArgs as hrun
  have hgrown := CompileRules.grown_of_threaded (h.rules mode) id
    (fun _ _ _ _ hR hg => hR hg) hthreaded fun _ _ n _ x hx => h.scope n x hx
  simpa using hgrown

lemma grows_keywords (h : env.Hoists table) {as : List (String × ColumnExpr)}
    {ks : List (String × Expr)} {found found' : List LabelledWindow}
    (hrun : env.compileKeywords mode found as = .ok (ks, found')) :
    Grows table found (ks.map Prod.snd) found' :=
  CompileRules.grown_of_threaded (h.rules mode) Prod.snd (fun _ _ _ _ hR hg => hR.2 hg)
    ((h.rules mode).cases.compileKeywords as hrun) fun _ _ n _ x hx => h.scope n x hx

lemma Grows.isWindow {found found' : List LabelledWindow} {es : List Expr}
    (h : Grows table found es found') (hfound : ∀ w ∈ found, w.expression.isWindow = true) :
    ∀ w ∈ found', w.expression.isWindow = true := by
  obtain ⟨new, rfl, _, _, hnew⟩ := h
  exact List.forall_mem_append.2 ⟨hfound, fun w hw => (hnew w hw).1⟩

/-- Windows found later change nothing in an expression that is compiled already. -/
lemma bindColumns_putBack_append {found : List LabelledWindow} {e : Expr}
    (h : Labels table found e) (new : List LabelledWindow) :
    e.bindColumns (putBack table (found ++ new)) = e.bindColumns (putBack table found) := by
  refine Expr.bindColumns_congr fun r hr => ?_
  rcases h r hr with helse | ⟨w, hw, rfl⟩
  · rw [putBack_elsewhere helse, putBack_elsewhere helse]
  · exact putBack_append new hw

/-- Puts the windows of a result back where their labels stand. -/
def back (table : TableAlias) (p : Expr × List LabelledWindow) : Expr × List LabelledWindow :=
  (p.1.bindColumns (putBack table p.2), p.2)

/-- A label stands for the window that it was made for. -/
lemma place_inPlace (h : env.Hoists table) (found : List LabelledWindow) (call : WindowCall) :
    env.inPlace.windows.place env.inPlace.scope found call =
      back table (env.windows.place env.scope found call) := by
  have hnone : (found.find? fun w => w.label = freshLabel env.scope found) = none := by
    rw [List.find?_eq_none]
    intro w hw hlabel
    refine freshLabel_not_mem env.scope found (List.mem_append_right _ ?_)
    exact List.mem_map.2 ⟨w, hw, of_decide_eq_true hlabel⟩
  simp only [WindowContext.place, h.placement, back, inPlace, Expr.bindColumns_labelled, putBack,
    windowOf?_labelled, List.find?_append, hnone]
  simp [WindowContext.overClause]

/-- A call with its windows in place is the call without them, put back: a finished expression
because building commutes with replacing columns, and a window because its arguments hold none. -/
lemma finishCall_inPlace (h : env.Hoists table) (operation : Operation) (t : Template)
    {a : Arguments} {found last : List LabelledWindow}
    (hfound : ∀ w ∈ found, w.expression.isWindow = true) (hgrows : Grows table found a.all last) :
    env.inPlace.finishCall operation found.length last
      (t.build (a.bindColumns (putBack table last))) =
      (env.finishCall operation found.length last (t.build a)).map (back table) := by
  have hwindows := hgrows.isWindow hfound
  have hvalue : ∀ r v, putBack table last r ≠ .value v := fun r v => putBack_ne_value hwindows v
  have hbuild := t.build_bindColumns hvalue a
  obtain ⟨new, rfl, _, hplain, _⟩ := hgrows
  cases hres : t.build a with
  | error fault =>
    rw [hbuild, hres]
    rfl
  | ok built =>
    cases built with
    | expression e =>
      rw [hbuild, hres]
      rfl
    | window call =>
      by_cases hlength : found.length < (found ++ new).length
      · rw [hbuild, hres]
        simp only [finishCall, Except.map, Built.bindColumns, if_pos hlength]
      · have hnil : new = [] := by
          rw [List.length_append] at hlength
          exact List.length_eq_zero_iff.1 (by omega)
        subst hnil
        have hsame : a.bindColumns (putBack table (found ++ [])) = a := by
          refine (Arguments.bindColumns_congr fun x hx => ?_).trans a.bindColumns_self
          rw [bindColumns_putBack_elsewhere (hplain rfl x hx), Expr.bindColumns_self]
        rw [hsame, hres]
        simp only [finishCall, if_neg hlength, Except.map]
        rw [h.place_inPlace]

lemma compileName_inPlace (h : env.Hoists table) (found : List LabelledWindow) (e : ColumnExpr) :
    env.inPlace.compileName found e = (env.compileName found e).map (back table) := by
  unfold compileName
  cases e.simpleName? with
  | none => rfl
  | some n =>
    have hscope : env.inPlace.scope = env.scope := rfl
    cases hx : env.scope.lookup n with
    | error fault => simp [hscope, hx, Except.map]
    | ok x => simp [hscope, hx, Except.map, back, bindColumns_putBack_elsewhere (h.scope n x hx)]

lemma grows_from (h : env.Hoists table) {e : ColumnExpr} {r : Expr}
    {found found' : List LabelledWindow} (hrun : env.compileFrom mode found e = .ok (r, found')) :
    Grows table found [r] found' :=
  (h.rules mode).compileFrom hrun fun n _ x hx => h.scope n x hx

mutual

/-- Compiling with windows in place is compiling without them and putting them back. -/
theorem compileFrom_inPlace (h : env.Hoists table) : ∀ (e : ColumnExpr)
    {found : List LabelledWindow}, (∀ w ∈ found, w.expression.isWindow = true) →
      env.inPlace.compileFrom mode found e = (env.compileFrom mode found e).map (back table)
  | .literal v, found, _ => rfl
  | .call operation args keywords, found, hfound => by
    have hfunctions : env.inPlace.functions = env.functions := rfl
    simp only [CompileEnv.compileFrom, hfunctions]
    cases hb : env.functions.lookup operation mode with
    | error fault => rfl
    | ok builder =>
      obtain ⟨t, rfl⟩ := h.standard operation mode builder (FunctionTable.lookup_eq_ok.1 hb)
      rw [compileArgs_inPlace h args hfound]
      cases hargs : env.compileArgs mode found args with
      | error fault => rfl
      | ok p =>
        obtain ⟨es, mid⟩ := p
        have hmid := h.grows_args hargs
        simp only [Except.map, bind, Except.bind]
        rw [compileKeywords_inPlace h keywords (hmid.isWindow hfound)]
        cases hkeys : env.compileKeywords mode mid keywords with
        | error fault => rfl
        | ok q =>
          obtain ⟨ks, last⟩ := q
          have hlast := h.grows_keywords hkeys
          have hgrows : Grows table found (Arguments.all ⟨es, ks⟩) last :=
            CompileRules.Grown.append (h.rules mode) hmid hlast
          have hbound : (⟨es.map (Expr.bindColumns (putBack table mid)),
              ks.map fun k => (k.1, k.2.bindColumns (putBack table last))⟩ : Arguments) =
              Arguments.bindColumns (putBack table last) ⟨es, ks⟩ := by
            obtain ⟨new, rfl, _, _, _⟩ := hlast
            obtain ⟨_, _, hlabels, _, _⟩ := hmid
            simp only [Arguments.bindColumns, Arguments.mk.injEq, and_true]
            exact List.map_congr_left fun x hx =>
              (bindColumns_putBack_append (hlabels x hx) new).symm
          have hfinish := h.finishCall_inPlace operation t hfound hgrows
          rw [← hbound] at hfinish
          exact hfinish
  | .reference, found, _ => h.compileName_inPlace found .reference
  | .attr parent name, found, _ => h.compileName_inPlace found (.attr parent name)
  | .index parent key, found, _ => h.compileName_inPlace found (.index parent key)
  | .slice start stop, found, _ => h.compileName_inPlace found (.slice start stop)

theorem compileArgs_inPlace (h : env.Hoists table) : ∀ (as : List ColumnExpr)
    {found : List LabelledWindow}, (∀ w ∈ found, w.expression.isWindow = true) →
      env.inPlace.compileArgs mode found as = (env.compileArgs mode found as).map fun p =>
        (p.1.map (Expr.bindColumns (putBack table p.2)), p.2)
  | [], found, _ => rfl
  | a :: as, found, hfound => by
    simp only [CompileEnv.compileArgs]
    rw [compileFrom_inPlace h a hfound]
    cases ha : env.compileFrom mode found a with
    | error fault => rfl
    | ok p =>
      obtain ⟨e, mid⟩ := p
      have hmid := h.grows_from ha
      simp only [Except.map, bind, Except.bind, back]
      rw [compileArgs_inPlace h as (hmid.isWindow hfound)]
      cases has : env.compileArgs mode mid as with
      | error fault => rfl
      | ok q =>
        obtain ⟨es, last⟩ := q
        obtain ⟨_, _, hlabels, _, _⟩ := hmid
        obtain ⟨new, rfl, _, _, _⟩ := h.grows_args has
        simp [Except.map, pure, Except.pure,
          bindColumns_putBack_append (hlabels e List.mem_cons_self)]

theorem compileKeywords_inPlace (h : env.Hoists table) : ∀ (as : List (String × ColumnExpr))
    {found : List LabelledWindow}, (∀ w ∈ found, w.expression.isWindow = true) →
      env.inPlace.compileKeywords mode found as = (env.compileKeywords mode found as).map fun p =>
        (p.1.map fun k => (k.1, k.2.bindColumns (putBack table p.2)), p.2)
  | [], found, _ => rfl
  | (k, a) :: as, found, hfound => by
    simp only [CompileEnv.compileKeywords]
    rw [compileFrom_inPlace h a hfound]
    cases ha : env.compileFrom mode found a with
    | error fault => rfl
    | ok p =>
      obtain ⟨e, mid⟩ := p
      have hmid := h.grows_from ha
      simp only [Except.map, bind, Except.bind, back]
      rw [compileKeywords_inPlace h as (hmid.isWindow hfound)]
      cases has : env.compileKeywords mode mid as with
      | error fault => rfl
      | ok q =>
        obtain ⟨es, last⟩ := q
        obtain ⟨_, _, hlabels, _, _⟩ := hmid
        obtain ⟨new, rfl, _, _, _⟩ := h.grows_keywords has
        simp [Except.map, pure, Except.pure,
          bindColumns_putBack_append (hlabels e List.mem_cons_self)]

end

end Hoists

end CompileEnv

end PipelineSql
