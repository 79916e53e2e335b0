import PipelineSql.Proofs.ColumnReads
import PipelineSql.Proofs.RowCompilation

/-!
# What builders accept

Builders look at how many arguments there are and under which keywords, with one exception: the
type of a cast has to be a text. So an expression that is compiled in one scope is compiled in
every other one with the same names, as long as it gives the types of its casts itself.
-/

namespace PipelineSql

open Sql (Expr Select TableAlias Ordered)

section Acceptance

/-- The argument of a cast that names the type. -/
def castType? {α : Type} (args : List α) (keywords : List (String × α)) : Option α :=
  match args, keywords.lookup "dtype" with
  | [_], some target => some target
  | [_, target], none => some target
  | _, _ => none

lemma isOk_map {ε α β : Type} (r : Except ε α) (f : α → β) : (r.map f).isOk = r.isOk := by
  cases r <;> rfl

lemma buildCast_isOk {dialect : Dialect} {a : Arguments} :
    (buildCast dialect a).isOk = true ↔
      ∃ target, castType? a.args a.keywords = some target ∧
        (castTarget dialect target).isOk = true := by
  unfold buildCast
  split
  · rename_i hargs hkey
    simp [castType?, hargs, hkey, isOk_map]
  · rename_i hargs hkey
    simp [castType?, hargs, hkey, isOk_map]
  · rename_i hone htwo
    have hnone : castType? a.args a.keywords = none := by
      unfold castType?
      split
      · rename_i x target hargs hkey
        exact absurd hkey (hone x target hargs)
      · rename_i x target hargs hkey
        exact absurd hkey (htwo x target hargs)
      · rfl
    simp [hnone, Except.isOk, Except.toBool]

lemma castTarget_isOk {dialect : Dialect} {target : Expr} :
    (castTarget dialect target).isOk = true ↔
      ∃ name t, target = .text name ∧ ScalarType.ofName? name = some t := by
  unfold castTarget Expr.text
  split
  · rename_i name
    cases htype : ScalarType.ofName? name <;> simp [htype, Except.isOk, Except.toBool]
  · rename_i hother
    constructor
    · intro h
      simp [Except.isOk, Except.toBool] at h
    · rintro ⟨name, t, rfl, _⟩
      exact absurd rfl (hother name)

/-- Whether a template takes so many arguments and such keywords. -/
def Template.accepts : Template → Nat → List String → Bool
  | .operator _, count, keywords => keywords.isEmpty && count == 2
  | .and, count, keywords => keywords.isEmpty && count == 2
  | .or, count, keywords => keywords.isEmpty && count == 2
  | .like _, count, keywords => keywords.isEmpty && count == 2
  | .between, count, keywords => keywords.isEmpty && count == 3
  | .ifElse, count, keywords => keywords.isEmpty && count == 3
  | .isIn, count, keywords => keywords.isEmpty && count != 0
  | .coalesce, count, keywords => keywords.isEmpty && count != 0
  | .round, count, keywords => keywords.isEmpty && (count == 1 || count == 2)
  | .caseWhen, count, keywords =>
    keywords.all (· = "default") && count != 0 && count % 2 == 0
  | .countRows, count, keywords => keywords.isEmpty && decide (count ≤ 1)
  | .countPartition, count, keywords => keywords.isEmpty && decide (count ≤ 1)
  | .ranking _, count, keywords => keywords.isEmpty && decide (count ≤ 1)
  | _, count, keywords => keywords.isEmpty && count == 1

namespace Arguments

variable {α : Type} (a : Arguments)

/-- The keywords under which arguments are given. -/
def keys : List String := a.keywords.map Prod.fst

lemma one_isOk (f : Expr → α) :
    (a.one f).isOk = (a.keys.isEmpty && a.args.length == 1) := by
  obtain ⟨args, keywords⟩ := a
  rcases keywords with _ | ⟨k, ks⟩
  · rcases args with _ | ⟨x, _ | ⟨y, rest⟩⟩ <;> simp [one, keys, Except.isOk, Except.toBool]
  · simp [one, keys, Except.isOk, Except.toBool]

lemma two_isOk (f : Expr → Expr → α) :
    (a.two f).isOk = (a.keys.isEmpty && a.args.length == 2) := by
  obtain ⟨args, keywords⟩ := a
  rcases keywords with _ | ⟨k, ks⟩
  · rcases args with _ | ⟨x, _ | ⟨y, _ | ⟨z, rest⟩⟩⟩ <;>
      simp [two, keys, Except.isOk, Except.toBool]
  · simp [two, keys, Except.isOk, Except.toBool]

lemma three_isOk (f : Expr → Expr → Expr → α) :
    (a.three f).isOk = (a.keys.isEmpty && a.args.length == 3) := by
  obtain ⟨args, keywords⟩ := a
  rcases keywords with _ | ⟨k, ks⟩
  · rcases args with _ | ⟨x, _ | ⟨y, _ | ⟨z, _ | ⟨w, rest⟩⟩⟩⟩ <;>
      simp [three, keys, Except.isOk, Except.toBool]
  · simp [three, keys, Except.isOk, Except.toBool]

lemma atMostOne_isOk (fault : ArgumentFault) (f : Option Expr → α) :
    (a.atMostOne fault f).isOk = (a.keys.isEmpty && decide (a.args.length ≤ 1)) := by
  obtain ⟨args, keywords⟩ := a
  rcases keywords with _ | ⟨k, ks⟩
  · rcases args with _ | ⟨x, _ | ⟨y, rest⟩⟩ <;>
      simp [atMostOne, keys, Except.isOk, Except.toBool]
  · simp [atMostOne, keys, Except.isOk, Except.toBool]

end Arguments

lemma buildCase_isOk (a : Arguments) :
    (buildCase a).isOk =
      (a.keys.all (· = "default") && a.args.length != 0 && a.args.length % 2 == 0) := by
  unfold buildCase Arguments.keys
  cases hother : (a.keywords.filter fun k => k.1 ≠ "default").head? with
  | some k =>
    have hk : k ∈ a.keywords.filter fun k => k.1 ≠ "default" := List.mem_of_head? hother
    have hne : (a.keywords.map Prod.fst).all (· = "default") = false := by
      rw [List.all_eq_false]
      have hmem := List.mem_filter.1 hk
      exact ⟨k.1, List.mem_map_of_mem hmem.1, by simpa using hmem.2⟩
    simp [hne, Except.isOk, Except.toBool]
  | none =>
    have hall : (a.keywords.map Prod.fst).all (· = "default") = true := by
      rw [List.head?_eq_none_iff, List.filter_eq_nil_iff] at hother
      simpa using hother
    by_cases hempty : a.args = []
    · simp [hempty, Except.isOk, Except.toBool]
    · by_cases heven : a.args.length % 2 = 0
      · simp [hempty, heven, hall, Except.isOk, Except.toBool]
      · simp [hempty, heven, Except.isOk, Except.toBool]

/-- Whether a template other than a cast succeeds depends on the number of its arguments and on
their keywords, and not on what they are. -/
lemma Template.build_isOk {t : Template} (ht : ∀ dialect, t ≠ .cast dialect) (a : Arguments) :
    (t.build a).isOk = t.accepts a.args.length a.keys := by
  cases t with
  | cast dialect => exact absurd rfl (ht dialect)
  | operator | and | or | like => exact a.two_isOk _
  | between | ifElse => exact a.three_isOk _
  | countRows | countPartition | ranking =>
    rw [build, Arguments.atMostOne_isOk]
    rfl
  | function | functionOf | not | negate | isNull | isNotNull | yearOfText | mondayOfText
  | countDistinct | overPartition | running => exact a.one_isOk _
  | caseWhen =>
    rw [build, isOk_map, buildCase_isOk]
    rfl
  | isIn =>
    obtain ⟨args, keywords⟩ := a
    rw [build, isOk_map]
    rcases keywords with _ | ⟨k, ks⟩ <;> rcases args with _ | ⟨x, _ | ⟨y, rest⟩⟩ <;>
      simp [buildIsIn, accepts, Arguments.keys, Except.isOk, Except.toBool]
  | coalesce =>
    obtain ⟨args, keywords⟩ := a
    rw [build, isOk_map]
    rcases keywords with _ | ⟨k, ks⟩ <;> rcases args with _ | ⟨x, rest⟩ <;>
      simp [buildCoalesce, accepts, Arguments.keys, Except.isOk, Except.toBool]
  | round =>
    obtain ⟨args, keywords⟩ := a
    rw [build, isOk_map]
    rcases keywords with _ | ⟨k, ks⟩ <;> rcases args with _ | ⟨x, _ | ⟨y, _ | ⟨z, rest⟩⟩⟩ <;>
      simp [buildRound, accepts, Arguments.keys, Arguments.one, Arguments.two, Except.isOk,
        Except.toBool]

end Acceptance

section CastTypes

variable {α β : Type} {R : α → β → Prop}

lemma lookup_rel {ks : List (String × α)} {ls : List (String × β)}
    (h : List.Forall₂ (fun k l => k.1 = l.1 ∧ R k.2 l.2) ks ls) (key : String) :
    Option.Rel R (ks.lookup key) (ls.lookup key) := by
  induction h with
  | nil => exact .none
  | @cons k l ks ls hkl _ ih =>
    obtain ⟨k, a⟩ := k
    obtain ⟨l, b⟩ := l
    obtain ⟨rfl, hab⟩ := hkl
    by_cases hkey : key = k
    · simpa [List.lookup_cons, hkey] using Option.Rel.some hab
    · simpa [List.lookup_cons, beq_eq_false_iff_ne.2 hkey] using ih

/-- Where arguments correspond to each other, so do the types that they name. -/
lemma castType?_rel {args : List α} {es : List β} {keywords : List (String × α)}
    {ks : List (String × β)} (hargs : List.Forall₂ R args es)
    (hkeys : List.Forall₂ (fun k l => k.1 = l.1 ∧ R k.2 l.2) keywords ks) :
    Option.Rel R (castType? args keywords) (castType? es ks) := by
  have hlookup := lookup_rel hkeys "dtype"
  unfold castType?
  generalize keywords.lookup "dtype" = target at hlookup ⊢
  generalize ks.lookup "dtype" = built at hlookup ⊢
  cases hargs with
  | nil => exact .none
  | cons _ hargs =>
    cases hargs with
    | nil => cases hlookup with
      | none => exact .none
      | some hab => exact .some hab
    | cons hsecond hargs => cases hargs with
      | nil => cases hlookup with
        | none => exact .some hsecond
        | some _ => exact .none
      | cons _ _ => exact .none

lemma castType?_map (f : α → β) (args : List α) (keywords : List (String × α)) :
    castType? (args.map f) (keywords.map fun k => (k.1, f k.2)) =
      (castType? args keywords).map f := by
  have hrel : Option.Rel (fun a b => f a = b) (castType? args keywords)
      (castType? (args.map f) (keywords.map fun k => (k.1, f k.2))) := by
    apply castType?_rel
    · rw [List.forall₂_map_right_iff, List.forall₂_same]
      exact fun _ _ => rfl
    · rw [List.forall₂_map_right_iff, List.forall₂_same]
      exact fun _ _ => ⟨rfl, rfl⟩
  generalize castType? (args.map f) (keywords.map fun k => (k.1, f k.2)) = renamed at hrel ⊢
  generalize castType? args keywords = target at hrel ⊢
  cases hrel with
  | none => rfl
  | some h => rw [Option.map_some, h]

end CastTypes

namespace ColumnExpr

/-- A text, as a cast can name its type by it. -/
def isText : ColumnExpr → Bool
  | .literal (.str _) => true
  | _ => false

mutual

/-- Whether every cast in an expression names its type by a text. -/
def castsByText : ColumnExpr → Bool
  | .call operation args keywords =>
    (operation != .castTo || (castType? args keywords).any isText) &&
      (castsByTextArgs args && castsByTextKeywords keywords)
  | _ => true

def castsByTextArgs : List ColumnExpr → Bool
  | [] => true
  | a :: as => a.castsByText && castsByTextArgs as

def castsByTextKeywords : List (String × ColumnExpr) → Bool
  | [] => true
  | (_, a) :: as => a.castsByText && castsByTextKeywords as

end

lemma castsByText_call {operation : Operation} {args : List ColumnExpr}
    {keywords : List (String × ColumnExpr)} :
    (call operation args keywords).castsByText = true ↔
      (operation = .castTo → ∃ name, castType? args keywords = some (.literal (.str name))) ∧
        (∀ a ∈ args, a.castsByText = true) ∧ ∀ k ∈ keywords, k.2.castsByText = true := by
  have hargs : ∀ args, castsByTextArgs args = args.all castsByText := by
    intro args
    induction args with
    | nil => rfl
    | cons a args ih => rw [castsByTextArgs, ih, List.all_cons]
  have hkeywords : ∀ keywords, castsByTextKeywords keywords =
      keywords.all fun k => k.2.castsByText := by
    intro keywords
    induction keywords with
    | nil => rfl
    | cons k keywords ih => rw [castsByTextKeywords, ih, List.all_cons]
  have htext : ∀ target : Option ColumnExpr,
      target.any isText = true ↔ ∃ name, target = some (.literal (.str name)) := by
    intro target
    cases target with
    | none => simp
    | some e =>
      rw [Option.any_some]
      unfold isText
      split
      · simp
      · rename_i hother
        constructor
        · intro h
          cases h
        · rintro ⟨name, h⟩
          cases h
          exact absurd rfl (hother name)
  rw [castsByText, Bool.and_eq_true, Bool.and_eq_true, hargs, hkeywords, List.all_eq_true,
    List.all_eq_true, Bool.or_eq_true, htext, bne_iff_ne, ← imp_iff_not_or]

lemma castsByText_of_simpleName {e : ColumnExpr} {n : String} (h : e.simpleName? = some n) :
    e.castsByText = true := by
  cases e with
  | call operation args keywords => cases h
  | reference | attr | index | slice | literal => rfl

lemma forall_reads_call {P : String → Prop} {operation : Operation} {args : List ColumnExpr}
    {keywords : List (String × ColumnExpr)} :
    (∀ n ∈ (call operation args keywords).reads, P n) ↔
      (∀ a ∈ args, ∀ n ∈ a.reads, P n) ∧ ∀ k ∈ keywords, ∀ n ∈ k.2.reads, P n := by
  rw [reads, readsOfArgs_eq, readsOfKeywords_eq, List.forall_mem_append]
  simp only [List.mem_flatMap, forall_exists_index, and_imp]
  constructor
  · rintro ⟨ha, hk⟩
    exact ⟨fun a hmem n => ha n a hmem, fun k hmem n => hk n k hmem⟩
  · rintro ⟨ha, hk⟩
    exact ⟨fun n a hmem => ha a hmem n, fun n k hmem => hk k hmem n⟩

/-- The expressions that translate row by row in every scope with the columns that they read. -/
inductive Translatable (dialect : Dialect) : ColumnExpr → Prop where
  | literal {v : Literal} : Translatable dialect (.literal v)
  | column {name : String} : Translatable dialect (.column name)
  | call {operation : Operation} {t : Template} {args : List ColumnExpr}
      {keywords : List (String × ColumnExpr)} :
      scalarTemplate dialect operation = some t → (∀ d, t ≠ .cast d) →
      t.accepts args.length (keywords.map Prod.fst) = true →
      (∀ a ∈ args, Translatable dialect a) → (∀ k ∈ keywords, Translatable dialect k.2) →
      Translatable dialect (.call operation args keywords)
  | cast {name : String} {type : ScalarType} {args : List ColumnExpr}
      {keywords : List (String × ColumnExpr)} :
      castType? args keywords = some (.literal (.str name)) →
      ScalarType.ofName? name = some type →
      (∀ a ∈ args, Translatable dialect a) → (∀ k ∈ keywords, Translatable dialect k.2) →
      Translatable dialect (.call .castTo args keywords)

lemma rename_eq_text {f : String → String} {e : ColumnExpr} {name : String} :
    e.rename f = .literal (.str name) ↔ e = .literal (.str name) := by
  constructor
  · exact eq_of_mapNodes_renameNode (.inr ⟨_, rfl⟩)
  · rintro rfl
    rfl

/-- Renaming leaves the types that casts name alone. -/
lemma castsByText_rename (f : String → String) (e : ColumnExpr) :
    (e.rename f).castsByText = e.castsByText := by
  induction e using induct with
  | reference | literal => rfl
  | attr parent name =>
    rw [rename, mapNodes]
    unfold renameNode
    split <;> rfl
  | index | slice => rfl
  | call operation args keywords hargs hkeywords =>
    rw [Bool.eq_iff_iff, rename_call, castsByText_call, castsByText_call, castType?_map]
    simp only [Option.map_eq_some_iff, rename_eq_text, exists_eq_right, List.forall_mem_map]
    have ha : (∀ a ∈ args, (a.rename f).castsByText = true) ↔
        ∀ a ∈ args, a.castsByText = true :=
      forall₂_congr fun a h => by rw [hargs a h]
    have hk : (∀ k ∈ keywords, (k.2.rename f).castsByText = true) ↔
        ∀ k ∈ keywords, k.2.castsByText = true :=
      forall₂_congr fun k h => by rw [hkeywords k h]
    rw [ha, hk]

lemma Translatable.rename {dialect : Dialect} {e : ColumnExpr} (h : e.Translatable dialect)
    (f : String → String) : (e.rename f).Translatable dialect := by
  induction h with
  | literal => exact .literal
  | column => exact .column
  | @call operation t args keywords ht hcast haccepts _ _ hargs hkeywords =>
    rw [rename_call]
    refine .call ht hcast ?_ ?_ ?_
    · simpa [Function.comp_def] using haccepts
    · exact List.forall_mem_map.2 hargs
    · exact List.forall_mem_map.2 hkeywords
  | @cast name type args keywords htype hname _ _ hargs hkeywords =>
    rw [rename_call]
    refine .cast ?_ hname ?_ ?_
    · rw [castType?_map, htype]
      rfl
    · exact List.forall_mem_map.2 hargs
    · exact List.forall_mem_map.2 hkeywords

end ColumnExpr

lemma scalarTemplate_cast {dialect d : Dialect} {operation : Operation}
    (h : scalarTemplate dialect operation = some (.cast d)) : operation = .castTo := by
  have hcommon : ∀ operation, commonScalar operation ≠ some (.cast d) := by
    intro operation h
    unfold commonScalar at h
    split at h <;> cases h
  unfold scalarTemplate at h
  split at h
  case h_8 => rfl
  case h_9 => exact absurd h (hcommon _)
  all_goals cases h

lemma scalarTemplate_castTo (dialect : Dialect) :
    scalarTemplate dialect .castTo = some (.cast dialect) := by
  cases dialect <;> rfl

/-- What is built row by row is no text by itself. -/
lemma Template.build_ne_text {t : Template} {a : Arguments} {e : Expr}
    (h : t.build a = .ok (.expression e)) (name : String) : e ≠ .text name := by
  cases t with
  | operator | and | or | like =>
    obtain ⟨x, y, _, he⟩ := Arguments.two_cases h
    cases he
    simp [Expr.text]
  | between | ifElse =>
    obtain ⟨x, y, z, _, he⟩ := Arguments.three_cases h
    cases he
    simp [Expr.text]
  | function | functionOf | not | negate | isNull | isNotNull | yearOfText | mondayOfText
  | countDistinct =>
    obtain ⟨x, _, he⟩ := Arguments.one_cases h
    cases he
    simp [Expr.text]
  | countRows =>
    rw [build] at h
    obtain ⟨x, _, he⟩ := Arguments.atMostOne_eq_ok h
    cases he
    simp [Expr.text]
  | overPartition | running =>
    obtain ⟨x, _, he⟩ := Arguments.one_cases h
    cases he
  | countPartition | ranking =>
    rw [build] at h
    obtain ⟨x, _, he⟩ := Arguments.atMostOne_eq_ok h
    cases he
  | isIn =>
    obtain ⟨e, hbuild, he⟩ := map_eq_ok.1 h
    cases he
    unfold buildIsIn at hbuild
    split at hbuild <;> cases hbuild <;> simp [Expr.text, Expr.never]
  | round =>
    obtain ⟨e, hbuild, he⟩ := map_eq_ok.1 h
    cases he
    unfold buildRound at hbuild
    split at hbuild
    · obtain ⟨x, _, rfl⟩ := Arguments.one_cases hbuild
      simp [Expr.text]
    · obtain ⟨x, y, _, rfl⟩ := Arguments.two_cases hbuild
      simp [Expr.text]
    · cases hbuild
  | caseWhen =>
    obtain ⟨e, hbuild, he⟩ := map_eq_ok.1 h
    cases he
    unfold buildCase at hbuild
    split at hbuild
    · cases hbuild
    · split at hbuild <;> cases hbuild
      simp [Expr.text]
  | coalesce =>
    obtain ⟨e, hbuild, he⟩ := map_eq_ok.1 h
    cases he
    unfold buildCoalesce at hbuild
    split at hbuild <;> cases hbuild
    simp [Expr.text, Expr.coalesce]
  | cast =>
    obtain ⟨e, hbuild, he⟩ := map_eq_ok.1 h
    cases he
    unfold buildCast at hbuild
    split at hbuild
    · obtain ⟨_, _, rfl⟩ := map_eq_ok.1 hbuild
      simp [Expr.text]
    · obtain ⟨_, _, rfl⟩ := map_eq_ok.1 hbuild
      simp [Expr.text]
    · cases hbuild

namespace CompileEnv

section Arguments

variable {env : CompileEnv} {mode : Mode}

/-- An expression that translates to the same whatever windows were found before, and adds none. -/
def GivesAlways (env : CompileEnv) (mode : Mode) (e : ColumnExpr) (x : Expr) : Prop :=
  ∀ found, env.compileFrom mode found e = .ok (x, found)

lemma compileArgs_of_forall {args : List ColumnExpr}
    (h : ∀ a ∈ args, ∃ x, env.GivesAlways mode a x) :
    ∃ es, (∀ found, env.compileArgs mode found args = .ok (es, found)) ∧
      List.Forall₂ (env.GivesAlways mode) args es := by
  induction args with
  | nil => exact ⟨[], fun _ => rfl, .nil⟩
  | cons a args ih =>
    obtain ⟨x, hx⟩ := h a List.mem_cons_self
    obtain ⟨es, hes, hall⟩ := ih fun b hb => h b (List.mem_cons_of_mem _ hb)
    refine ⟨x :: es, ?_, .cons hx hall⟩
    intro found
    simp [compileArgs, hx found, hes found, bind, Except.bind, pure, Except.pure]

lemma compileKeywords_of_forall {keywords : List (String × ColumnExpr)}
    (h : ∀ k ∈ keywords, ∃ x, env.GivesAlways mode k.2 x) :
    ∃ ks, (∀ found, env.compileKeywords mode found keywords = .ok (ks, found)) ∧
      List.Forall₂ (fun k y => k.1 = y.1 ∧ env.GivesAlways mode k.2 y.2) keywords ks := by
  induction keywords with
  | nil => exact ⟨[], fun _ => rfl, .nil⟩
  | cons k keywords ih =>
    obtain ⟨x, hx⟩ := h k List.mem_cons_self
    obtain ⟨ks, hks, hall⟩ := ih fun b hb => h b (List.mem_cons_of_mem _ hb)
    refine ⟨(k.1, x) :: ks, ?_, .cons ⟨rfl, hx⟩ hall⟩
    intro found
    simp [compileKeywords, hx found, hks found, bind, Except.bind, pure, Except.pure]

end Arguments

section Scalar

variable {dialect : Dialect} {scope : Scope}

lemma lookup_scalar_builtIn {operation : Operation} {builder : Builder} :
    (FunctionTable.builtIn dialect).lookup operation .scalar = .ok builder ↔
      ∃ t, scalarTemplate dialect operation = some t ∧ builder = t.build := by
  rw [FunctionTable.lookup_eq_ok]
  cases ht : scalarTemplate dialect operation with
  | none => simp [FunctionTable.find?, FunctionTable.builtIn, ht]
  | some t => simp [FunctionTable.find?, FunctionTable.builtIn, ht, eq_comm]

/-- A call whose builder accepts its arguments becomes a plain expression. -/
lemma finishCall_scalar (env : CompileEnv) {operation : Operation} {t : Template}
    (ht : scalarTemplate dialect operation = some t) {a : Arguments}
    (h : (t.build a).isOk = true) :
    ∃ e, t.build a = .ok (.expression e) ∧
      ∀ outer found, env.finishCall operation outer found (t.build a) = .ok (e, found) := by
  obtain ⟨built, hbuilt⟩ := exists_eq_ok h
  cases built with
  | expression e => exact ⟨e, hbuilt, fun outer found => by rw [hbuilt, finishCall]⟩
  | window call =>
    have hwindow := (Template.isWindow_iff_of_build hbuilt).2 ⟨call, rfl⟩
    rw [scalarTemplate_isWindow ht] at hwindow
    cases hwindow

lemma exists_lookup_of_mem_names {n : String} (h : n ∈ scope.names) :
    ∃ x, scope.lookup n = .ok x := by
  obtain ⟨x, hx⟩ := exists_lookup h
  exact ⟨x, Scope.lookup_eq_ok.2 hx⟩

lemma givesAlways_call {operation : Operation} {t : Template} {args : List ColumnExpr}
    {keywords : List (String × ColumnExpr)} {env : CompileEnv}
    (hf : env.functions = .builtIn dialect) (ht : scalarTemplate dialect operation = some t)
    (hargs : ∀ a ∈ args, ∃ x, env.GivesAlways .scalar a x)
    (hkeywords : ∀ k ∈ keywords, ∃ x, env.GivesAlways .scalar k.2 x)
    (hok : ∀ es ks, List.Forall₂ (env.GivesAlways .scalar) args es →
      List.Forall₂ (fun k y => k.1 = y.1 ∧ env.GivesAlways .scalar k.2 y.2) keywords ks →
      (t.build ⟨es, ks⟩).isOk = true) :
    ∃ x, env.GivesAlways .scalar (.call operation args keywords) x := by
  obtain ⟨es, hes, hall⟩ := compileArgs_of_forall hargs
  obtain ⟨ks, hks, hkeys⟩ := compileKeywords_of_forall hkeywords
  obtain ⟨e, _, hfinish⟩ := finishCall_scalar env ht (hok es ks hall hkeys)
  have hlookup : env.functions.lookup operation .scalar = .ok t.build := by
    rw [hf]
    exact lookup_scalar_builtIn.2 ⟨t, ht, rfl⟩
  refine ⟨e, fun found => ?_⟩
  simp [compileFrom, hlookup, hes found, hks found, hfinish, bind, Except.bind]

/-- What can be translated is translated in every scope with the columns that it reads. -/
lemma givesAlways_of_translatable (windows : WindowContext) {e : ColumnExpr}
    (h : e.Translatable dialect) (hscope : ∀ n ∈ e.reads, n ∈ scope.names) :
    ∃ x, GivesAlways ⟨.builtIn dialect, scope, windows⟩ .scalar e x := by
  induction h with
  | @literal v =>
    refine ⟨.value v, fun found => ?_⟩
    rw [compileFrom]
  | @column name =>
    have hname : name ∈ scope.names := hscope name (by simp [ColumnExpr.column, ColumnExpr.reads])
    obtain ⟨x, hx⟩ := exists_lookup_of_mem_names hname
    refine ⟨x, fun found => ?_⟩
    simp [ColumnExpr.column, compileFrom, compileName, ColumnExpr.simpleName?, hx, Except.map]
  | @call operation t args keywords ht hcast haccepts _ _ hargs hkeywords =>
    obtain ⟨hra, hrk⟩ := ColumnExpr.forall_reads_call.1 hscope
    refine givesAlways_call rfl ht (fun a ha => hargs a ha (hra a ha))
      (fun k hk => hkeywords k hk (hrk k hk)) ?_
    intro es ks hes hks
    have hkeys : Arguments.keys ⟨es, ks⟩ = keywords.map Prod.fst := by
      apply map_fst_of_forall₂
      exact hks.imp fun k y hky => ⟨hky.1.symm, hky.2⟩
    rw [Template.build_isOk hcast, hkeys, ← hes.length_eq]
    exact haccepts
  | @cast name type args keywords htype hname _ _ hargs hkeywords =>
    obtain ⟨hra, hrk⟩ := ColumnExpr.forall_reads_call.1 hscope
    refine givesAlways_call rfl (scalarTemplate_castTo dialect)
      (fun a ha => hargs a ha (hra a ha)) (fun k hk => hkeywords k hk (hrk k hk)) ?_
    intro es ks hes hks
    have hrel := castType?_rel hes hks
    rw [htype] at hrel
    obtain ⟨target, htarget, hgives⟩ : ∃ target, castType? es ks = some target ∧
        GivesAlways ⟨.builtIn dialect, scope, windows⟩ .scalar (.literal (.str name)) target := by
      generalize castType? es ks = built at hrel
      cases hrel with
      | some h => exact ⟨_, rfl, h⟩
    have htext : target = .text name := by
      have hrun := hgives []
      rw [compileFrom] at hrun
      cases hrun
      rfl
    rw [Template.build, isOk_map]
    exact buildCast_isOk.2 ⟨target, htarget, castTarget_isOk.2 ⟨name, type, htext, hname⟩⟩

variable {env : CompileEnv}

/-- A call that was compiled row by row: its template, and what that made of the arguments. -/
lemma scalar_call_cases (hf : env.functions = .builtIn dialect) {operation : Operation}
    {builder : Builder} {a : Arguments} {outer : Nat} {last found' : List LabelledWindow} {r : Expr}
    (hb : env.functions.lookup operation .scalar = .ok builder)
    (hfin : env.finishCall operation outer last (builder a) = .ok (r, found')) :
    ∃ t, scalarTemplate dialect operation = some t ∧ t.build a = .ok (.expression r) ∧
      found' = last := by
  rw [hf] at hb
  obtain ⟨t, ht, rfl⟩ := lookup_scalar_builtIn.1 hb
  have hok : (t.build a).isOk = true := by
    cases hbuilt : t.build a with
    | error fault => simp [finishCall, hbuilt] at hfin
    | ok built => rfl
  obtain ⟨e, he, hfinish⟩ := finishCall_scalar env ht hok
  rw [hfinish] at hfin
  cases hfin
  exact ⟨t, ht, he, rfl⟩

/-- The type of a cast that was built is a text with the name of a type. -/
lemma castType_of_build {d : Dialect} {a : Arguments} {r : Built}
    (h : (Template.cast d).build a = .ok r) :
    ∃ name type, castType? a.args a.keywords = some (.text name) ∧
      ScalarType.ofName? name = some type := by
  have hok : (buildCast d a).isOk = true := by
    rw [← isOk_map _ Built.expression]
    change ((Template.cast d).build a).isOk = true
    rw [h]
    rfl
  obtain ⟨target, htarget, hknown⟩ := buildCast_isOk.1 hok
  obtain ⟨name, type, rfl, htype⟩ := castTarget_isOk.1 hknown
  exact ⟨name, type, htarget, htype⟩

/-- An expression that was compiled somewhere, and whose casts give their types as texts, can be
translated everywhere. -/
lemma translatableCases (hf : env.functions = .builtIn dialect) :
    CompileCases env .scalar fun found e r found' => found' = found ∧
      (e.Shaped → e.castsByText = true → e.Translatable dialect) ∧
      ∀ v, e = .literal v → r = .value v where
  literal := by
    intro v found
    refine ⟨rfl, fun _ _ => .literal, ?_⟩
    rintro w ⟨⟩
    rfl
  name := by
    intro e n x found hn hreads _
    refine ⟨rfl, ?_, ?_⟩
    · intro hshaped _
      unfold ColumnExpr.simpleName? at hn
      split at hn
      · exact .column
      · cases hshaped with
        | index _ _ hne => exact absurd rfl (hne rfl _)
      · simp [ColumnExpr.reads] at hreads
      · cases hn
    · rintro v rfl
      simp [ColumnExpr.reads] at hreads
  call := by
    intro operation args keywords builder es ks found mid last r found' hb hargs hkeys hfin
    obtain ⟨t, ht, hbuilt, rfl⟩ := scalar_call_cases hf hb hfin
    obtain ⟨rfl, hes⟩ := forall₂_of_threaded hargs fun _ _ _ _ _ hR => hR
    obtain ⟨rfl, hks⟩ := forall₂_of_threaded (S := fun k y => k.1 = y.1 ∧
        (k.2.Shaped → k.2.castsByText = true → k.2.Translatable dialect) ∧
        ∀ v, k.2 = .literal v → y.2 = .value v) hkeys
      fun _ _ _ _ _ hR => ⟨hR.2.1, hR.1, hR.2.2⟩
    refine ⟨rfl, ?_, fun v hv => by cases hv⟩
    intro hshaped hcasts
    obtain ⟨htype, hca, hck⟩ := ColumnExpr.castsByText_call.1 hcasts
    obtain ⟨hsa, hsk⟩ : (∀ a ∈ args, a.Shaped) ∧ ∀ k ∈ keywords, k.2.Shaped := by
      cases hshaped with
      | call hsa hsk => exact ⟨hsa, hsk⟩
    have htargs : ∀ a ∈ args, a.Translatable dialect := by
      intro a ha
      obtain ⟨x, _, hR, _⟩ := exists_of_forall₂ hes.flip ha
      exact hR (hsa a ha) (hca a ha)
    have htkeys : ∀ k ∈ keywords, k.2.Translatable dialect := by
      intro k hk
      obtain ⟨y, _, _, hR, _⟩ := exists_of_forall₂ hks.flip hk
      exact hR (hsk k hk) (hck k hk)
    by_cases hcast : ∃ d, t = .cast d
    · obtain ⟨d, rfl⟩ := hcast
      obtain rfl := scalarTemplate_cast ht
      obtain ⟨name, hname⟩ := htype rfl
      obtain ⟨built, type, hbuiltType, hknown⟩ := castType_of_build hbuilt
      have hrel := castType?_rel (R := fun a x => ∀ v, a = .literal v → x = .value v)
        (hes.imp fun _ _ h => h.2) (hks.imp fun _ _ h => ⟨h.1, h.2.2⟩)
      rw [hname, hbuiltType] at hrel
      cases hrel with
      | some h =>
        cases h _ rfl
        exact .cast hname hknown htargs htkeys
    · push Not at hcast
      refine .call ht hcast ?_ htargs htkeys
      have hkeysEq : Arguments.keys ⟨es, ks⟩ = keywords.map Prod.fst := by
        apply map_fst_of_forall₂
        exact hks.imp fun k y hky => ⟨hky.1.symm, hky.2⟩
      have haccepts := Template.build_isOk hcast ⟨es, ks⟩
      rw [hbuilt, hkeysEq, ← hes.length_eq] at haccepts
      exact haccepts.symm

/-- Where names stand for columns, nothing but a text becomes one, so that casts have to give
their types themselves. -/
lemma castsByTextCases (hf : env.functions = .builtIn dialect) :
    CompileCases env .scalar fun found e r found' =>
      (∀ n ∈ e.reads, ∀ x, env.scope.lookup n = .ok x → x.isColumn = true) →
        found' = found ∧ e.castsByText = true ∧
          ∀ name, r = .text name → e = .literal (.str name) where
  literal := by
    intro v found _
    refine ⟨rfl, rfl, ?_⟩
    intro name h
    cases h
    rfl
  name := by
    intro e n x found hn hreads hx hcolumns
    refine ⟨rfl, ColumnExpr.castsByText_of_simpleName hn, ?_⟩
    rintro name rfl
    cases hcolumns n hreads _ hx
  call := by
    intro operation args keywords builder es ks found mid last r found' hb hargs hkeys hfin hreads
    obtain ⟨t, ht, hbuilt, rfl⟩ := scalar_call_cases hf hb hfin
    obtain ⟨hra, hrk⟩ := ColumnExpr.forall_reads_call.1 hreads
    obtain ⟨rfl, hes⟩ := forall₂_of_threaded hargs fun _ a _ _ ha hR => hR (hra a ha)
    obtain ⟨rfl, hks⟩ := forall₂_of_threaded (S := fun k y => k.1 = y.1 ∧
        (k.2.castsByText = true ∧ ∀ name, y.2 = .text name → k.2 = .literal (.str name))) hkeys
      fun _ k _ _ hk hR => ⟨(hR.2 (hrk k hk)).1, hR.1, (hR.2 (hrk k hk)).2⟩
    refine ⟨rfl, ?_, fun name hr => absurd hr (Template.build_ne_text hbuilt name)⟩
    rw [ColumnExpr.castsByText_call]
    refine ⟨?_, ?_, ?_⟩
    · rintro rfl
      obtain rfl : t = .cast dialect :=
        Option.some.inj (ht.symm.trans (scalarTemplate_castTo dialect))
      obtain ⟨name, type, hname, _⟩ := castType_of_build hbuilt
      have hrel := castType?_rel (hes.imp fun _ _ h => h.2) (hks.imp fun _ _ h => ⟨h.1, h.2.2⟩)
      rw [hname] at hrel
      generalize castType? args keywords = target at hrel ⊢
      cases hrel with
      | some h => exact ⟨name, by rw [h name rfl]⟩
    · intro a ha
      obtain ⟨x, _, hcasts, _⟩ := exists_of_forall₂ hes.flip ha
      exact hcasts
    · intro k hk
      obtain ⟨y, _, _, hcasts, _⟩ := exists_of_forall₂ hks.flip hk
      exact hcasts

end Scalar

end CompileEnv

end PipelineSql
