import Mathlib.Data.List.Infix
import PipelineSql.Proofs.ParallelCompilation
import PipelineSql.Proofs.RowSemantics

/-!
# Texts that start with, end with or contain a needle

A needle is put between wildcards and matched by `LIKE`, which reads the needle as a pattern too. So
every text with the needle in its place is found, and others are found beside them exactly when the
needle holds a wildcard of its own.
-/

namespace PipelineSql

open Sql (Expr)

/-- Whether a text matches a pattern, in which `%` stands for any sequence of characters, `_` for
any one character and every other character for itself. -/
def likes : List Char → List Char → Bool
  | [], t => t.isEmpty
  | c :: p, t =>
    if c = '%' then t.tails.any (likes p)
    else match t with
      | [] => false
      | d :: t => (c = '_' || c = d) && likes p t

/-- Whether a character of a pattern stands for others than itself. -/
def isWildcard (c : Char) : Bool := c = '%' || c = '_'

section Patterns

variable {p q s t : List Char} {c d : Char}

attribute [local simp] likes

lemma likes_percent_cons : likes ('%' :: p) t = true ↔ ∃ u, u <:+ t ∧ likes p u = true := by
  simp

lemma likes_cons_nil (hc : c ≠ '%') : likes (c :: p) [] = false := by
  simp [hc]

lemma likes_cons_cons (hc : c ≠ '%') :
    likes (c :: p) (d :: t) = true ↔ (c = '_' ∨ c = d) ∧ likes p t = true := by
  simp [hc]

/-- Two patterns in a row match what the first and then the second match. -/
lemma likes_append : likes (p ++ q) t = true ↔
    ∃ u v, t = u ++ v ∧ likes p u = true ∧ likes q v = true := by
  induction p generalizing t with
  | nil => simp
  | cons c p ih =>
    by_cases hc : c = '%'
    · subst hc
      simp only [List.cons_append, likes_percent_cons, ih]
      constructor
      · rintro ⟨_, ⟨w, rfl⟩, u, v, rfl, hu, hv⟩
        exact ⟨w ++ u, v, by simp, ⟨u, List.suffix_append w u, hu⟩, hv⟩
      · rintro ⟨_, v, rfl, ⟨u, ⟨w, rfl⟩, hu⟩, hv⟩
        exact ⟨u ++ v, ⟨w, by simp⟩, u, v, rfl, hu, hv⟩
    · cases t with
      | nil =>
        rw [List.cons_append, likes_cons_nil hc]
        refine iff_of_false Bool.false_ne_true ?_
        rintro ⟨u, v, huv, hu, _⟩
        obtain ⟨rfl, _⟩ := List.append_eq_nil_iff.1 huv.symm
        rw [likes_cons_nil hc] at hu
        exact Bool.false_ne_true hu
      | cons d t =>
        rw [List.cons_append, likes_cons_cons hc, ih]
        constructor
        · rintro ⟨hd, u, v, rfl, hu, hv⟩
          exact ⟨d :: u, v, rfl, (likes_cons_cons hc).2 ⟨hd, hu⟩, hv⟩
        · rintro ⟨u, v, huv, hu, hv⟩
          cases u with
          | nil =>
            rw [likes_cons_nil hc] at hu
            exact absurd hu Bool.false_ne_true
          | cons b u =>
            rw [List.cons_append, List.cons.injEq] at huv
            obtain ⟨rfl, rfl⟩ := huv
            obtain ⟨hd, hu⟩ := (likes_cons_cons hc).1 hu
            exact ⟨hd, u, v, rfl, hu, hv⟩

lemma likes_append_percent : likes (p ++ ['%']) t = true ↔ ∃ u, u <+: t ∧ likes p u = true := by
  have hall : ∀ v, likes ['%'] v = true := fun v =>
    likes_percent_cons.2 ⟨[], List.nil_suffix, rfl⟩
  rw [likes_append]
  constructor
  · rintro ⟨u, v, rfl, hu, _⟩
    exact ⟨u, List.prefix_append u v, hu⟩
  · rintro ⟨u, ⟨v, rfl⟩, hu⟩
    exact ⟨u, v, rfl, hu, hall v⟩

/-- Without wildcards a pattern matches itself only. -/
lemma likes_iff_eq (hs : ∀ c ∈ s, isWildcard c = false) : likes s t = true ↔ t = s := by
  induction s generalizing t with
  | nil => simp
  | cons c s ih =>
    obtain ⟨hc, hs⟩ := List.forall_mem_cons.1 hs
    simp only [isWildcard, Bool.or_eq_false_iff, decide_eq_false_iff_not] at hc
    cases t with
    | nil => simp [hc.1]
    | cons d t =>
      rw [likes_cons_cons hc.1, ih hs, List.cons.injEq]
      simp [hc.2, eq_comm]

lemma likes_self (s : List Char) : likes s s = true := by
  induction s with
  | nil => rfl
  | cons c s ih =>
    by_cases hc : c = '%'
    · subst hc
      exact likes_percent_cons.2 ⟨s, List.suffix_cons '%' s, ih⟩
    · exact (likes_cons_cons hc).2 ⟨Or.inr rfl, ih⟩

/-- The shortest text that a pattern matches, with a letter in the place of each `_`. -/
def shortestMatch (s : List Char) : List Char :=
  s.filterMap fun c => if c = '%' then none else some (if c = '_' then 'a' else c)

lemma likes_shortestMatch (s : List Char) : likes s (shortestMatch s) = true := by
  induction s with
  | nil => rfl
  | cons c s ih =>
    by_cases hc : c = '%'
    · subst hc
      exact likes_percent_cons.2 ⟨shortestMatch s, List.suffix_refl _, ih⟩
    · have hcons : shortestMatch (c :: s) = (if c = '_' then 'a' else c) :: shortestMatch s := by
        simp [shortestMatch, hc]
      rw [hcons, likes_cons_cons hc]
      refine ⟨?_, ih⟩
      by_cases hu : c = '_'
      · exact Or.inl hu
      · exact Or.inr (if_neg hu).symm

lemma isWildcard_of_mem_shortestMatch (hc : c ∈ shortestMatch s) : isWildcard c = false := by
  obtain ⟨d, _, hd⟩ := List.mem_filterMap.1 hc
  split at hd
  · cases hd
  · cases hd
    split <;> simp_all [isWildcard]

end Patterns

namespace Matching

/-- Where a part of a text stands in it. -/
def StandsIn (part t : List Char) : Matching → Prop
  | .start => part <+: t
  | .finish => part <:+ t
  | .anywhere => part <:+: t

/-- The text of the pattern for a needle. -/
def patternText (needle : String) : Matching → String
  | .start => needle ++ "%"
  | .finish => "%" ++ needle
  | .anywhere => "%" ++ needle ++ "%"

/-- The operation that looks for a needle. -/
def operation : Matching → Operation
  | .start => .startsWith
  | .finish => .endsWith
  | .anywhere => .contains

variable {matching : Matching} {part t : List Char}

lemma StandsIn.isInfix (h : matching.StandsIn part t) : part <:+: t := by
  cases matching with
  | start => exact List.IsPrefix.isInfix h
  | finish => exact List.IsSuffix.isInfix h
  | anywhere => exact h

lemma standsIn_self (matching : Matching) (t : List Char) : matching.StandsIn t t := by
  cases matching with
  | start => exact List.prefix_refl t
  | finish => exact List.suffix_refl t
  | anywhere => exact List.infix_refl t

/-- A text matches when some part of it matches the needle, itself a pattern, and stands in the
right place. -/
lemma likes_patternText (matching : Matching) (needle : String) (t : List Char) :
    likes (matching.patternText needle).toList t = true ↔
      ∃ part, likes needle.toList part = true ∧ matching.StandsIn part t := by
  cases matching with
  | start =>
    have htext : (patternText needle .start).toList = needle.toList ++ ['%'] := by
      simp [patternText]
    rw [htext, likes_append_percent]
    exact exists_congr fun part => and_comm
  | finish =>
    have htext : (patternText needle .finish).toList = '%' :: needle.toList := by
      simp [patternText]
    rw [htext, likes_percent_cons]
    exact exists_congr fun part => and_comm
  | anywhere =>
    have htext : (patternText needle .anywhere).toList = '%' :: (needle.toList ++ ['%']) := by
      simp [patternText]
    rw [htext, likes_percent_cons]
    simp only [likes_append_percent, StandsIn, List.infix_iff_prefix_suffix]
    constructor
    · rintro ⟨u, hu, part, hpart, hneedle⟩
      exact ⟨part, hneedle, u, hpart, hu⟩
    · rintro ⟨part, hneedle, u, hpart, hu⟩
      exact ⟨u, hu, part, hpart, hneedle⟩

/-- A needle is found exactly where it stands if and only if it has no wildcards. -/
lemma forall_likes_patternText_iff (matching : Matching) (needle : String) :
    (∀ t, likes (matching.patternText needle).toList t = true ↔
      matching.StandsIn needle.toList t) ↔ ∀ c ∈ needle.toList, isWildcard c = false := by
  constructor
  · intro h
    -- The shortest match is no longer than the needle and has no wildcards: it can only hold the
    -- needle when it is the needle.
    have hmatch : matching.StandsIn needle.toList (shortestMatch needle.toList) :=
      (h _).1 ((likes_patternText matching needle _).2
        ⟨_, likes_shortestMatch needle.toList, matching.standsIn_self _⟩)
    have hlength : (shortestMatch needle.toList).length ≤ needle.toList.length :=
      List.length_filterMap_le _ _
    have heq := hmatch.isInfix.eq_of_length_le hlength
    intro c hc
    rw [heq] at hc
    exact isWildcard_of_mem_shortestMatch hc
  · intro hneedle t
    rw [likes_patternText]
    simp only [likes_iff_eq hneedle, exists_eq_left]

end Matching

/-- An interpretation with texts among its values, which `||` puts together and `LIKE` matches. -/
structure Interpretation.ReadsTexts {V : Type} (I : Interpretation V) (text : String → V) :
    Prop where
  literal : ∀ s, I.literal (.str s) = text s
  concat : ∀ s t, I.binary "||" (text s) (text t) = text (s ++ t)
  like : ∀ t p, I.holds (I.binary "LIKE" (text t) (text p)) = likes p.toList t.toList

section Evaluation

variable {V : Type} {I : Interpretation V} {text : String → V}

lemma Interpretation.ReadsTexts.eval_pattern (hI : I.ReadsTexts text) (row : Sql.Env V)
    (matching : Matching) (needle : String) :
    (matching.pattern (.text needle)).eval I row = some (text (matching.patternText needle)) := by
  cases matching with
  | _ => simp [Matching.pattern, Matching.patternText, Expr.text, Expr.eval, hI.literal, hI.concat]

lemma compile_matching {dialect : Dialect} {scope : Scope} {windows : WindowContext} {mode : Mode}
    {x : ColumnExpr} {e : Expr} {found : List LabelledWindow}
    (hx : CompileEnv.compile ⟨.builtIn dialect, scope, windows⟩ mode x = .ok (e, found))
    (matching : Matching) (needle : String) :
    CompileEnv.compile ⟨.builtIn dialect, scope, windows⟩ mode
      (.call matching.operation [x, .literal (.str needle)] []) =
        .ok (.binary e "LIKE" (matching.pattern (.text needle)), found) := by
  have hlookup : (FunctionTable.builtIn dialect).lookup matching.operation mode =
      .ok (Template.like matching).build := by
    cases matching <;> cases dialect <;> rfl
  have hargs : CompileEnv.compileArgs ⟨.builtIn dialect, scope, windows⟩ mode []
      [x, .literal (.str needle)] = .ok ([e, .text needle], found) := by
    rw [CompileEnv.compileArgs]
    exact bind_eq_ok.2 ⟨(e, found), hx, rfl⟩
  rw [CompileEnv.compile, CompileEnv.compileFrom]
  refine bind_eq_ok.2 ⟨_, hlookup, bind_eq_ok.2 ⟨_, hargs, ?_⟩⟩
  rfl

end Evaluation

/-- Looking for a needle at the start of a text, at its end or anywhere in it is matching the text
with a pattern. It is matched by every text with the needle in its place, and in general by those
with a part in that place that matches the needle, read as a pattern. So a needle is matched
literally exactly when it has no wildcards. -/
theorem needle_matched_literally_iff {V : Type} {I : Interpretation V} {text : String → V}
    (hI : I.ReadsTexts text) (matching : Matching) (needle : String) :
    (∀ dialect scope windows mode x e found,
      CompileEnv.compile ⟨.builtIn dialect, scope, windows⟩ mode x = .ok (e, found) →
      ∃ r, CompileEnv.compile ⟨.builtIn dialect, scope, windows⟩ mode
          (.call matching.operation [x, .literal (.str needle)] []) = .ok (r, found) ∧
        ∀ row t, e.eval I row = some (text t) → ∃ v, r.eval I row = some v ∧
          I.holds v = likes (matching.patternText needle).toList t.toList) ∧
    (∀ t, likes (matching.patternText needle).toList t = true ↔
      ∃ part, likes needle.toList part = true ∧ matching.StandsIn part t) ∧
    (∀ t, matching.StandsIn needle.toList t →
      likes (matching.patternText needle).toList t = true) ∧
    ((∀ t, likes (matching.patternText needle).toList t = true ↔
      matching.StandsIn needle.toList t) ↔ ∀ c ∈ needle.toList, c ≠ '%' ∧ c ≠ '_') := by
  have hliteral := matching.forall_likes_patternText_iff needle
  refine ⟨?_, matching.likes_patternText needle, ?_, ?_⟩
  · intro dialect scope windows mode x e found hx
    refine ⟨_, compile_matching hx matching needle, ?_⟩
    intro row t ht
    refine ⟨I.binary "LIKE" (text t) (text (matching.patternText needle)), ?_, hI.like _ _⟩
    simp [Expr.eval, ht, hI.eval_pattern]
  · intro t ht
    exact (matching.likes_patternText needle t).2 ⟨_, likes_self _, ht⟩
  · simpa [isWildcard] using hliteral

/-- A text, a truth value, or what is neither. -/
inductive TextValue where
  | text (s : String)
  | truth (b : Bool)
  | unknown
deriving DecidableEq

/-- Texts and truth values, on which conditions are three-valued. -/
def textValues : Interpretation TextValue where
  literal
    | .str s => .text s
    | .bool b => .truth b
    | _ => .unknown
  and
    | .truth true, b => b
    | .truth false, _ => .truth false
    | _, .truth false => .truth false
    | _, _ => .unknown
  or
    | .truth false, b => b
    | .truth true, _ => .truth true
    | _, .truth true => .truth true
    | _, _ => .unknown
  not
    | .truth b => .truth !b
    | _ => .unknown
  binary
    | "||", .text s, .text t => .text (s ++ t)
    | "LIKE", .text t, .text p => .truth (likes p.toList t.toList)
    | _, _, _ => .unknown
  isIn a l := .truth (decide (a ∈ l))
  isNull a := .truth (decide (a = .unknown))
  isNotNull a := .truth (decide (a ≠ .unknown))
  negate _ := .unknown
  call _ _ := .unknown
  case whens otherwise :=
    ((whens.find? fun w => w.1 = .truth true).map Prod.snd).getD (otherwise.getD .unknown)
  cast _ a := a
  holds a := decide (a = .truth true)
  holds_and a b := by
    cases a with
    | truth a => cases a <;> cases b <;> simp
    | text | unknown =>
      cases b with
      | truth b => cases b <;> simp
      | text | unknown => simp
  holds_always := rfl

/-- A needle without wildcards is found where it stands and nowhere else. -/
theorem star_matched_literally : textValues.ReadsTexts .text ∧
    (∃ r v, CompileEnv.compile ⟨.builtIn .sqlite, numberScope [], {}⟩ .scalar
        (.call .contains [.column "x", .literal (.str "0*")] []) = .ok (r, []) ∧
      r.eval textValues (fun _ => some (.text "10*5")) = some v ∧ textValues.holds v = true) ∧
    ∀ t, likes "%0*%".toList t = true ↔ "0*".toList <:+: t := by
  have hI : textValues.ReadsTexts .text :=
    ⟨fun _ => rfl, fun _ _ => rfl, fun _ _ => by simp [textValues]⟩
  obtain ⟨hcompile, _, hfound, hiff⟩ := needle_matched_literally_iff hI .anywhere "0*"
  obtain ⟨r, hr, heval⟩ := hcompile .sqlite (numberScope []) {} .scalar (.column "x") _ [] rfl
  obtain ⟨v, hv, hholds⟩ := heval (fun _ => some (.text "10*5")) "10*5" rfl
  refine ⟨hI, ⟨r, v, hr, hv, ?_⟩, hiff.2 (by simp)⟩
  rw [hholds]
  exact hfound _ ⟨['1'], ['5'], rfl⟩

/-- `startswith(x, "_")` holds of a text that starts with another character. -/
theorem underscore_not_matched_literally : ∃ r v,
    CompileEnv.compile ⟨.builtIn .postgres, numberScope [], {}⟩ .scalar
      (.call .startsWith [.column "x", .literal (.str "_")] []) = .ok (r, []) ∧
    r.eval textValues (fun _ => some (.text "a")) = some v ∧ textValues.holds v = true ∧
    ¬"_".toList <+: "a".toList :=
  ⟨_, _, rfl, rfl, by decide, by decide⟩

end PipelineSql
