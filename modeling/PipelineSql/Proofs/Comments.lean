import Mathlib.Algebra.GroupWithZero.Nat
import PipelineSql.Proofs.Quoting

/-!
# Where a statement opens a comment

Outside of quotes, two minus signs or a slash before a star begin a comment, which swallows the
rest of the statement. Operators stand between blanks, names and texts in quotes, and the text of a
number holds at most one sign at a time; only the minus before an operand stands directly before
it. So a comment is opened exactly where that operand is written with a minus of its own.
-/

namespace PipelineSql

open Sql

namespace Sql

section Characters

/-- Two characters that open no comment when one follows the other. -/
def Apart (c d : Char) : Prop := ¬(c = '-' ∧ d = '-') ∧ ¬(c = '/' ∧ d = '*')

instance : DecidableRel Apart := fun c d =>
  inferInstanceAs (Decidable (¬(c = '-' ∧ d = '-') ∧ ¬(c = '/' ∧ d = '*')))

/-- Whether a text, read outside of quotes, has the beginning of a comment in it. -/
def OpensComment (cs : List Char) : Prop := "--".toList <:+: cs ∨ "/*".toList <:+: cs

instance : DecidablePred OpensComment := fun cs =>
  inferInstanceAs (Decidable ("--".toList <:+: cs ∨ "/*".toList <:+: cs))

lemma isChain_apart_iff {cs : List Char} : cs.IsChain Apart ↔ ¬OpensComment cs := by
  rw [List.isChain_iff_forall_rel_of_append_cons_cons]
  constructor
  · rintro h (⟨as, bs, rfl⟩ | ⟨as, bs, rfl⟩)
    · have hcs : as ++ "--".toList ++ bs = as ++ '-' :: '-' :: bs := by simp
      exact (h hcs).1 ⟨rfl, rfl⟩
    · have hcs : as ++ "/*".toList ++ bs = as ++ '/' :: '*' :: bs := by simp
      exact (h hcs).2 ⟨rfl, rfl⟩
  · rintro h c d as bs rfl
    constructor
    · rintro ⟨rfl, rfl⟩
      exact h (Or.inl ⟨as, bs, by simp⟩)
    · rintro ⟨rfl, rfl⟩
      exact h (Or.inr ⟨as, bs, by simp⟩)

/-- A character that opens no comment, whatever stands before it. -/
def isTame (c : Char) : Bool := c != '-' && c != '*'

lemma apart_of_isTame {c d : Char} (h : isTame d = true) : Apart c d := by
  simp only [isTame, Bool.and_eq_true, bne_iff_ne] at h
  exact ⟨fun hc => h.1 hc.2, fun hc => h.2 hc.2⟩

lemma isChain_of_isTame {cs : List Char} (h : ∀ c ∈ cs, isTame c = true) : cs.IsChain Apart := by
  induction cs with
  | nil => exact .nil
  | cons c cs ih =>
    refine List.isChain_cons.2 ⟨?_, ih fun d hd => h d (List.mem_cons_of_mem _ hd)⟩
    exact fun d hd => apart_of_isTame (h d (List.mem_cons_of_mem _ (List.mem_of_mem_head? hd)))

lemma isTame_of_isDigit {c : Char} (h : c.isDigit = true) : isTame c = true := by
  have hsigns : c ≠ '-' ∧ c ≠ '*' := by
    constructor <;> rintro rfl <;> cases h
  simp [isTame, hsigns]

lemma isTame_of_isNumeralChar {c : Char} (h : isNumeralChar c = true) : isTame c = true := by
  simp only [isNumeralChar, Bool.or_eq_true, decide_eq_true_eq] at h
  rcases h with (hdigit | rfl) | rfl
  · exact isTame_of_isDigit hdigit
  · decide
  · decide

/-- The sign of an exponent stands behind a letter. -/
lemma isChain_numeral {cs : List Char} (h : IsNumeral cs) : cs.IsChain Apart := by
  induction h with
  | digit => exact .singleton _
  | char _ hc ih =>
    refine List.isChain_append.2 ⟨ih, .singleton _, ?_⟩
    intro c _ d hd
    cases hd
    exact apart_of_isTame (isTame_of_isNumeralChar hc)
  | sign _ ih =>
    refine List.isChain_append.2 ⟨ih, .singleton _, ?_⟩
    intro c hc d hd
    simp only [List.getLast?_concat, Option.mem_def, Option.some.injEq] at hc
    subst hc
    cases hd
    decide

lemma isChain_signed {negative : Bool} {s : String} (h : IsNumeral s.toList) :
    (Literal.signText negative ++ s).toList.IsChain Apart := by
  cases negative with
  | false => simpa [Literal.signText] using isChain_numeral h
  | true =>
    obtain ⟨d, ds, hs, hd⟩ := h.head
    have hsigned : (Literal.signText true ++ s).toList = '-' :: s.toList := by
      simp [Literal.signText]
    rw [hsigned]
    refine List.isChain_cons.2 ⟨?_, isChain_numeral h⟩
    intro c hc
    rw [hs] at hc
    cases hc
    exact apart_of_isTame (isTame_of_isDigit hd)

lemma isChain_placeholder (style : ParamStyle) (n : Nat) :
    (style.placeholder n).toList.IsChain Apart := by
  apply isChain_of_isTame
  intro c hc
  cases style with
  | dollar =>
    simp only [ParamStyle.placeholder, String.toList_append, List.mem_append] at hc
    rcases hc with hc | hc
    · obtain rfl : c = '$' := by simpa using hc
      decide
    · exact isTame_of_isDigit (isDigit_of_mem_repr hc)
  | questionMark =>
    obtain rfl : c = '?' := by simpa [ParamStyle.placeholder] using hc
    decide

end Characters

section Outside

namespace Split

/-- The texts outside the quotes. -/
def pieces (s : Split) : List (List Char) := s.text :: s.parts.map Prod.snd

/-- The whole text, with one quote in the place of every quoted part. -/
def marked (s : Split) : List Char := s.text ++ s.parts.flatMap fun p => p.1.quote :: p.2

lemma marked_afterText (cs : List Char) (s : Split) : (s.afterText cs).marked = cs ++ s.marked := by
  simp [marked, afterText]

lemma marked_afterPart (part : QuotedPart) (s : Split) :
    (s.afterPart part).marked = part.quote :: s.marked := by
  simp [marked, afterPart]

lemma apart_quote {c quote : Char} (h : isQuote quote = true) : Apart c quote ∧ Apart quote c := by
  have hquote : quote = '"' ∨ quote = '\'' := by simpa [isQuote] using h
  rcases hquote with rfl | rfl <;> simp [Apart]

/-- A quote opens no comment with what stands before or behind it. -/
lemma isChain_marked {s : Split} (h : ∀ p ∈ s.parts, isQuote p.1.quote = true) :
    s.marked.IsChain Apart ↔ ∀ piece ∈ s.pieces, piece.IsChain Apart := by
  obtain ⟨text, parts⟩ := s
  induction parts generalizing text with
  | nil => simp [marked, pieces]
  | cons p parts ih =>
    have hquote := h p List.mem_cons_self
    have hrest : marked ⟨p.2, parts⟩ = p.2 ++ parts.flatMap fun p => p.1.quote :: p.2 := rfl
    have hmarked : marked ⟨text, p :: parts⟩ = text ++ p.1.quote :: marked ⟨p.2, parts⟩ := by
      simp [marked]
    rw [hmarked, List.isChain_append, List.isChain_cons,
      ih p.2 fun q hq => h q (List.mem_cons_of_mem _ hq)]
    simp only [pieces, List.map_cons, List.forall_mem_cons]
    constructor
    · exact fun ⟨htext, ⟨_, hpieces⟩, _⟩ => ⟨htext, hpieces⟩
    · rintro ⟨htext, hpieces⟩
      refine ⟨htext, ⟨fun _ _ => (apart_quote hquote).2, hpieces⟩, ?_⟩
      intro c _ d hd
      cases hd
      exact (apart_quote hquote).1

end Split

variable (options : RenderOptions) (style : ParamStyle)

/-- What fragments write outside of quotes after `n` placeholders, one quote for each quoted
part. -/
def outside (n : Nat) (fs : List Fragment) : List Char := (Split.ofFragments options style n fs).marked

/-- The number of placeholders that fragments write. -/
def placeholdersOf (fs : List Fragment) : Nat := (fs.map (Fragment.placeholders options)).sum

@[simp] lemma outside_nil (n : Nat) : outside options style n [] = [] := rfl

@[simp] lemma outside_param (n : Nat) (s : String) : outside options style n [.param s] =
    if options.literalBinds then ['\''] else (style.placeholder (n + 1)).toList := by
  by_cases hbinds : options.literalBinds = true <;>
    simp [outside, Split.ofFragments, Split.marked, Split.afterPart, Split.afterText,
      Fragment.part?, Fragment.bare, hbinds]

@[simp] lemma outside_identifier (n : Nat) (name : String) (fs : List Fragment) :
    outside options style n (.identifier name :: fs) = '"' :: outside options style n fs := by
  simp [outside, Split.ofFragments, Fragment.part?, Fragment.placeholders,
    Split.marked_afterPart]

@[simp] lemma outside_plain (n : Nat) (s : String) (fs : List Fragment) :
    outside options style n (.plain s :: fs) = s.toList ++ outside options style n fs := by
  simp [outside, Split.ofFragments, Fragment.part?, Fragment.bare, Fragment.placeholders,
    Split.marked_afterText]

lemma outside_append (n : Nat) (fs gs : List Fragment) : outside options style n (fs ++ gs) =
    outside options style n fs ++ outside options style (n + placeholdersOf options fs) gs := by
  induction fs generalizing n with
  | nil => simp [outside, placeholdersOf, Split.ofFragments, Split.marked]
  | cons f fs ih =>
    have hrest := ih (n + f.placeholders options)
    have hcount : placeholdersOf options (f :: fs) =
        f.placeholders options + placeholdersOf options fs := by
      simp [placeholdersOf]
    simp only [outside] at hrest ⊢
    rw [hcount, ← Nat.add_assoc, List.cons_append, Split.ofFragments, Split.ofFragments]
    cases f.part? options with
    | some part => simp [Split.marked_afterPart, hrest]
    | none => simp [Split.marked_afterText, hrest]

/-- Fragments that open no comment outside of quotes, after `n` placeholders. -/
def Quiet (n : Nat) (fs : List Fragment) : Prop := (outside options style n fs).IsChain Apart

/-- A reader of the text finds a comment opened exactly when the fragments open one. -/
lemma quiet_iff_pieces (n : Nat) (fs : List Fragment) : Quiet options style n fs ↔
    ∀ piece ∈ (Split.ofFragments options style n fs).pieces, ¬OpensComment piece := by
  have hquotes : ∀ p ∈ (Split.ofFragments options style n fs).parts,
      isQuote p.1.quote = true := by
    intro p hp
    have hmem := List.mem_map_of_mem (f := Prod.fst) hp
    rw [Split.parts_ofFragments, List.mem_filterMap] at hmem
    obtain ⟨f, _, hf⟩ := hmem
    exact (Fragment.of_part? options hf).2
  rw [Quiet, outside, Split.isChain_marked hquotes]
  exact forall₂_congr fun piece _ => isChain_apart_iff

/-- A plain text that opens no comment, neither by itself nor with what stands around it. -/
def isCalm (s : String) : Bool :=
  s.toList != [] && decide (s.toList.IsChain Apart) && s.toList.head?.all isTame &&
    s.toList.getLast?.all fun c => c != '-' && c != '/'

variable {options style} {s : String}

lemma isCalm_iff : isCalm s = true ↔ s.toList ≠ [] ∧ s.toList.IsChain Apart ∧
    (∀ c ∈ s.toList.head?, isTame c = true) ∧ ∀ c ∈ s.toList.getLast?, c ≠ '-' ∧ c ≠ '/' := by
  simp [isCalm, and_assoc, Option.all_eq_true]

lemma quiet_plain (hs : isCalm s = true) {n : Nat} {fs : List Fragment} :
    Quiet options style n (.plain s :: fs) ↔ Quiet options style n fs := by
  obtain ⟨_, hchain, _, hlast⟩ := isCalm_iff.1 hs
  rw [Quiet, outside_plain, List.isChain_append]
  refine ⟨fun h => h.2.1, fun h => ⟨hchain, h, ?_⟩⟩
  intro c hc d _
  obtain ⟨hminus, hslash⟩ := hlast c hc
  exact ⟨fun h => hminus h.1, fun h => hslash h.1⟩

/-- Fragments around a calm text do not depend on each other. -/
lemma quiet_append_plain (hs : isCalm s = true) {n : Nat} {fs gs : List Fragment} :
    Quiet options style n (fs ++ .plain s :: gs) ↔ Quiet options style n fs ∧
      Quiet options style (n + placeholdersOf options fs) gs := by
  have hgs : Quiet options style (n + placeholdersOf options fs) (.plain s :: gs) ↔
      Quiet options style (n + placeholdersOf options fs) gs := quiet_plain hs
  rw [← hgs, Quiet, outside_append, List.isChain_append]
  refine ⟨fun h => ⟨h.1, h.2.1⟩, fun h => ⟨h.1, h.2, ?_⟩⟩
  intro c _ d hd
  obtain ⟨hne, _, hhead, _⟩ := isCalm_iff.1 hs
  rw [outside_plain, List.head?_append_of_ne_nil _ hne] at hd
  exact apart_of_isTame (hhead d hd)

@[simp] lemma quiet_nil {n : Nat} : Quiet options style n [] := List.IsChain.nil

/-- Fragments that go on from any others: there are none, or a calm text comes first. -/
def Resumes (fs : List Fragment) : Prop := fs = [] ∨ ∃ s gs, isCalm s = true ∧ fs = .plain s :: gs

lemma quiet_append {n : Nat} {fs gs : List Fragment} (h : Resumes gs) :
    Quiet options style n (fs ++ gs) ↔ Quiet options style n fs ∧
      Quiet options style (n + placeholdersOf options fs) gs := by
  rcases h with rfl | ⟨s, gs, hs, rfl⟩
  · simp
  · rw [quiet_append_plain hs, quiet_plain hs]

section Lists

variable {α : Type} {xs : List α} {item : α → List Fragment} {p : α → Prop}
  (h : ∀ x ∈ xs, ∀ n, Quiet options style n (item x) ↔ p x)

include h

lemma quiet_separated {between : String} (hbetween : isCalm between = true) (n : Nat) :
    Quiet options style n (separated between (xs.map item)) ↔ ∀ x ∈ xs, p x := by
  induction xs generalizing n with
  | nil => simp [separated]
  | cons x xs ih =>
    have hx := h x List.mem_cons_self
    have hxs := ih fun y hy => h y (List.mem_cons_of_mem _ hy)
    cases xs with
    | nil => simpa [separated] using hx n
    | cons y ys =>
      rw [List.map_cons, List.map_cons, separated, ← List.map_cons,
        quiet_append_plain hbetween, hx, hxs, List.forall_mem_cons (a := x)]
      exact List.cons_ne_nil _ _

omit h in
lemma resumes_flatMap (hresumes : ∀ x ∈ xs, Resumes (item x)) : Resumes (xs.flatMap item) := by
  induction xs with
  | nil => exact Or.inl rfl
  | cons x xs ih =>
    rw [List.flatMap_cons]
    rcases hresumes x List.mem_cons_self with hnil | ⟨s, gs, hs, heq⟩
    · rw [hnil]
      exact ih fun y hy => hresumes y (List.mem_cons_of_mem _ hy)
    · rw [heq]
      exact Or.inr ⟨s, _, hs, rfl⟩

lemma quiet_flatMap (hresumes : ∀ x ∈ xs, Resumes (item x)) (n : Nat) :
    Quiet options style n (xs.flatMap item) ↔ ∀ x ∈ xs, p x := by
  induction xs generalizing n with
  | nil => simp
  | cons x xs ih =>
    have hrest : ∀ y ∈ xs, Resumes (item y) := fun y hy => hresumes y (List.mem_cons_of_mem _ hy)
    have hxs := ih fun y hy => h y (List.mem_cons_of_mem _ hy)
    rw [List.flatMap_cons, quiet_append (resumes_flatMap hrest), h x List.mem_cons_self, hxs hrest,
      List.forall_mem_cons]

end Lists

end Outside

section Expressions

/-- Whether a constant is written with a minus sign. -/
def writtenWithMinus : Literal → Bool
  | .int i => i.toInt < 0
  | .float x => x.isNegative && (x.isFinite || x.fractionBits = 0)
  | _ => false

/-- Whether a node writes a minus directly before a constant that has one. -/
def Expr.doublesMinus : Expr → Bool
  | .negate (.value v) => writtenWithMinus v
  | _ => false

variable {options : RenderOptions} {style : ParamStyle}

lemma quiet_singleton {n : Nat} {s : String} :
    Quiet options style n [.plain s] ↔ s.toList.IsChain Apart := by
  simp [Quiet]

lemma literal_quiet (n : Nat) (v : Literal) : Quiet options style n [literalFragment v] := by
  cases v with
  | null => exact quiet_singleton.2 (by decide)
  | bool b => cases b <;> exact quiet_singleton.2 (by decide)
  | int i =>
    refine quiet_singleton.2 ?_
    rw [Literal.intText_eq]
    exact isChain_signed (isNumeral_nat _)
  | float x =>
    refine quiet_singleton.2 ?_
    by_cases hfinite : x.isFinite = true
    · rw [Literal.floatText_eq hfinite]
      exact isChain_signed (isNumeral_magnitude rfl hfinite)
    · rw [Literal.floatText, NumberLayout.write, if_neg hfinite]
      split
      · decide
      · split <;> decide
  | str s =>
    rw [literalFragment, Quiet, outside_param]
    split
    · exact .singleton _
    · exact isChain_placeholder style (n + 1)

/-- A number that is not negative begins with a digit. -/
lemma head_signed {negative : Bool} {s : String} (h : IsNumeral s.toList) :
    (Literal.signText negative ++ s).toList.head? = some '-' ↔ negative = true := by
  obtain ⟨d, ds, hs, hd⟩ := h.head
  cases negative with
  | true => simp [Literal.signText]
  | false =>
    have hminus : d ≠ '-' := by
      rintro rfl
      cases hd
    simp [Literal.signText, hs, hminus]

lemma head_outside_singleton {n : Nat} {s : String} :
    (outside options style n [.plain s]).head? = s.toList.head? := by
  simp

/-- The text of a constant begins with a minus when the constant is written with one. -/
lemma head_literal (n : Nat) (v : Literal) :
    (outside options style n [literalFragment v]).head? = some '-' ↔ writtenWithMinus v = true := by
  cases v with
  | null =>
    rw [literalFragment, head_outside_singleton]
    decide
  | bool b =>
    cases b <;>
    · rw [literalFragment, head_outside_singleton]
      decide
  | int i =>
    rw [literalFragment, head_outside_singleton, Literal.intText_eq, head_signed (isNumeral_nat _)]
    rfl
  | float x =>
    rw [literalFragment, head_outside_singleton]
    by_cases hfinite : x.isFinite = true
    · rw [Literal.floatText_eq hfinite, head_signed (isNumeral_magnitude rfl hfinite)]
      simp [writtenWithMinus, hfinite]
    · rw [Literal.floatText, NumberLayout.write, if_neg hfinite]
      by_cases hfraction : x.fractionBits = 0
      · cases hnegative : x.isNegative <;>
          simp +decide [writtenWithMinus, hfraction, hnegative, hfinite]
      · simp +decide [writtenWithMinus, hfraction, hfinite]
  | str s =>
    rw [literalFragment, outside_param]
    split
    · simp [writtenWithMinus]
    · cases style <;> simp [ParamStyle.placeholder, writtenWithMinus]

lemma functionName_calm {name : String} (h : name ∈ functionNames) : isCalm name = true := by
  revert name
  decide

lemma operator_calm {name : String} (h : name ∈ operators) :
    isCalm (" " ++ name ++ " ") = true := by
  revert name
  decide

lemma typeName_calm {name : String} (h : name ∈ typeNames) : isCalm name = true := by
  revert name
  decide

lemma head_plain {s : String} (hs : isCalm s = true) (n : Nat) (fs : List Fragment) :
    (outside options style n (.plain s :: fs)).head? ≠ some '-' := by
  obtain ⟨hne, _, hhead, _⟩ := isCalm_iff.1 hs
  rw [outside_plain, List.head?_append_of_ne_nil _ hne]
  intro h
  exact absurd (hhead '-' h) (by decide)

/-- A constant is the only expression whose text can begin with a minus. -/
lemma head_expr {e : Expr} (h : e.InVocabulary) (hvalue : ∀ v, e ≠ .value v) (n : Nat) :
    (outside options style n e.fragments).head? ≠ some '-' := by
  cases e with
  | value v => exact absurd rfl (hvalue v)
  | column r =>
    obtain ⟨table, name⟩ | ⟨table, name⟩ := r <;>
    obtain (⟨_ | _, _⟩ | _) := table <;>
      simp [Expr.fragments, ColumnRef.fragments, TableRef.fragments, TableAlias.fragment]
  | call f args =>
    rw [Expr.fragments]
    exact head_plain (functionName_calm (Expr.inVocabulary_call.1 h).1) n _
  | window f clause =>
    obtain ⟨partitionBy, orderBy, frame⟩ := clause
    obtain ⟨hfunction, hwords, _, _⟩ := Expr.inVocabulary_window.1 h
    cases f with
    | call g args =>
      rw [Expr.fragments, Expr.fragments]
      exact head_plain (functionName_calm (Expr.inVocabulary_call.1 hwords).1) n _
    | countAll => simp [Expr.fragments]
    | _ => cases hfunction
  | and | or | not | binary | isIn | isNull | isNotNull | negate | case | cast | countAll | count
  | countDistinct => simp [Expr.fragments]

lemma quiet_minus {n : Nat} {fs : List Fragment} : Quiet options style n (.plain "(-" :: fs) ↔
    Quiet options style n fs ∧ (outside options style n fs).head? ≠ some '-' := by
  have htext : outside options style n (.plain "(-" :: fs) =
      '(' :: '-' :: outside options style n fs := by simp
  rw [Quiet, htext, List.isChain_cons_cons, List.isChain_cons]
  constructor
  · rintro ⟨_, hhead, hrest⟩
    exact ⟨hrest, fun h => (hhead '-' h).1 ⟨rfl, rfl⟩⟩
  · rintro ⟨hrest, hhead⟩
    refine ⟨by decide, ?_, hrest⟩
    intro c hc
    refine ⟨?_, by simp⟩
    rintro ⟨_, rfl⟩
    exact hhead hc

lemma column_quiet (n : Nat) (r : ColumnRef) : Quiet options style n r.fragments := by
  obtain ⟨table, name⟩ | ⟨table, name⟩ := r <;>
  obtain (⟨_ | _, _⟩ | _) := table <;>
    simp [Quiet, ColumnRef.fragments, TableRef.fragments, TableAlias.fragment, Apart]

lemma list_quiet {es : List Expr} {p : Expr → Prop}
    (h : ∀ e ∈ es, ∀ n, Quiet options style n e.fragments ↔ p e) (n : Nat) :
    Quiet options style n (separated ", " (listFragments es)) ↔ ∀ e ∈ es, p e := by
  rw [listFragments_eq]
  exact quiet_separated h (by decide) n

lemma ordered_quiet {terms : List (Ordered Expr)} {p : Expr → Prop}
    (h : ∀ t ∈ terms, ∀ n, Quiet options style n t.target.fragments ↔ p t.target) (n : Nat) :
    Quiet options style n (separated ", " (orderFragments terms)) ↔ ∀ t ∈ terms, p t.target := by
  rw [orderFragments_eq]
  refine quiet_separated ?_ (by decide) n
  intro t ht m
  have hkeyword : isCalm t.direction.keyword = true := by
    cases t.direction <;> decide
  rw [quiet_append_plain hkeyword, h t ht]
  simp

section Clauses

variable {keyword : String} (hkeyword : isCalm keyword = true) {items : List (List Fragment)}
  {p : Prop} (h : ∀ n, Quiet options style n (separated ", " items) ↔ p)

include hkeyword h

lemma quiet_of_mem_clause {fs : List Fragment} (hfs : fs ∈ clause keyword items) (n : Nat) :
    Quiet options style n fs ↔ p := by
  unfold clause at hfs
  split at hfs
  · simp at hfs
  · rw [List.mem_singleton.1 hfs, quiet_plain hkeyword, h]

/-- A clause opens a comment when one of its items does. -/
lemma forall_clause_quiet (n : Nat) :
    (∀ fs ∈ clause keyword items, Quiet options style n fs) ↔ p := by
  unfold clause
  split
  · rename_i hnil
    rw [List.isEmpty_iff.1 hnil] at h
    simpa [separated] using h n
  · simp [quiet_plain hkeyword, h]

lemma clause_quiet (n : Nat) : Quiet options style n (clause keyword items).flatten ↔ p := by
  rw [← forall_clause_quiet hkeyword h n]
  unfold clause
  split
  · simp
  · simp

end Clauses

lemma frame_quiet (n : Nat) (f : Frame) : Quiet options style n f.fragments := by
  obtain ⟨first, last⟩ := f
  have hwords : ∀ b : FrameBound, isCalm b.words = true := by
    intro b
    cases b <;> decide
  rw [Frame.fragments, quiet_plain (by decide), quiet_plain (hwords _), quiet_plain (by decide),
    quiet_plain (hwords _)]
  exact quiet_nil

lemma whens_quiet {whens : List (Expr × Expr)} {p : Expr → Prop}
    (h : ∀ w ∈ whens, ∀ n, (Quiet options style n w.1.fragments ↔ p w.1) ∧
      (Quiet options style n w.2.fragments ↔ p w.2)) (n : Nat) :
    Quiet options style n (whenFragments whens) ↔ ∀ w ∈ whens, p w.1 ∧ p w.2 := by
  have hitem : ∀ w ∈ whens, ∀ m, Quiet options style m
      (.plain " WHEN " :: w.1.fragments ++ .plain " THEN " :: w.2.fragments) ↔ p w.1 ∧ p w.2 := by
    intro w hw m
    rw [quiet_append_plain (by decide), quiet_plain (by decide), (h w hw _).1, (h w hw _).2]
  rw [whenFragments_eq]
  exact quiet_flatMap hitem (fun w _ => Or.inr ⟨_, _, by decide, rfl⟩) n

lemma else_quiet {otherwise : Option Expr} {p : Expr → Prop}
    (h : ∀ e ∈ otherwise, ∀ n, Quiet options style n e.fragments ↔ p e) (n : Nat) :
    Quiet options style n (elseFragments otherwise) ↔ ∀ e ∈ otherwise, p e := by
  cases otherwise with
  | none => simp [elseFragments]
  | some e =>
    rw [elseFragments, quiet_plain (by decide), h e rfl]
    simp

lemma resumes_else (otherwise : Option Expr) : Resumes (elseFragments otherwise) := by
  cases otherwise with
  | none => exact Or.inl rfl
  | some e => exact Or.inr ⟨_, _, by decide, rfl⟩

/-- The clauses of a window open a comment when one of their expressions does. -/
lemma over_quiet {partitionBy : List Expr} {orderBy : List (Ordered Expr)} {p : Expr → Prop}
    (frame : Option Frame)
    (hp : ∀ e ∈ partitionBy, ∀ n, Quiet options style n e.fragments ↔ p e)
    (ho : ∀ t ∈ orderBy, ∀ n, Quiet options style n t.target.fragments ↔ p t.target) (n : Nat) :
    Quiet options style n (separated " " (clause "PARTITION BY " (listFragments partitionBy) ++
      clause "ORDER BY " (orderFragments orderBy) ++ (frame.map Frame.fragments).toList)) ↔
      (∀ e ∈ partitionBy, p e) ∧ ∀ t ∈ orderBy, p t.target := by
  have hpartition := fun m => list_quiet hp m
  have horder := fun m => ordered_quiet (p := p) ho m
  have hframe : ∀ fs ∈ (frame.map Frame.fragments).toList, ∀ m, Quiet options style m fs := by
    cases frame with
    | none => simp
    | some f => simpa using fun m => frame_quiet m f
  -- How many placeholders stand before a clause does not matter to it.
  have hsame : ∀ fs ∈ clause "PARTITION BY " (listFragments partitionBy) ++
      clause "ORDER BY " (orderFragments orderBy) ++ (frame.map Frame.fragments).toList,
      ∀ m, Quiet options style m fs ↔ Quiet options style 0 fs := by
    intro fs hfs m
    rcases List.mem_append.1 hfs with hfs | hfs
    · rcases List.mem_append.1 hfs with hfs | hfs
      · rw [quiet_of_mem_clause (by decide) hpartition hfs,
          quiet_of_mem_clause (by decide) hpartition hfs]
      · rw [quiet_of_mem_clause (by decide) horder hfs,
          quiet_of_mem_clause (by decide) horder hfs]
    · simp [hframe fs hfs]
  have hblank : isCalm " " = true := by decide
  have hclauses := quiet_separated hsame hblank n
  rw [List.map_id'] at hclauses
  rw [hclauses, List.forall_mem_append, List.forall_mem_append,
    forall_clause_quiet (by decide) hpartition, forall_clause_quiet (by decide) horder]
  simpa [and_assoc] using fun _ _ fs hfs => hframe fs hfs 0

/-- The text of an expression opens a comment exactly when a minus in it stands before another. -/
theorem expr_quiet {e : Expr} (h : e.InVocabulary) (n : Nat) :
    Quiet options style n e.fragments ↔ e.anyNode Expr.doublesMinus = false := by
  induction e using Expr.induct generalizing n with
  | and l r hl hr | or l r hl hr =>
    simp only [Expr.inVocabulary_and, Expr.inVocabulary_or] at h
    simp (disch := decide) [Expr.fragments, quiet_append_plain, quiet_plain, hl h.1, hr h.2,
      Expr.anyNode, Expr.doublesMinus]
  | binary l operator r hl hr =>
    obtain ⟨hoperator, hwords⟩ := Expr.inVocabulary_binary.1 h
    simp (disch := decide) [Expr.fragments, quiet_append_plain, quiet_plain,
      quiet_append_plain (operator_calm hoperator), hl hwords.1, hr hwords.2, Expr.anyNode,
      Expr.doublesMinus]
  | not e he | isNull e he | isNotNull e he | count e he | countDistinct e he =>
    simp only [Expr.inVocabulary_not, Expr.inVocabulary_isNull, Expr.inVocabulary_isNotNull,
      Expr.inVocabulary_count, Expr.inVocabulary_countDistinct] at h
    simp (disch := decide) [Expr.fragments, quiet_append_plain, quiet_plain, he h, Expr.anyNode,
      Expr.doublesMinus]
  | negate e he =>
    have hwords := Expr.inVocabulary_negate.1 h
    have hhead : (outside options style n e.fragments).head? ≠ some '-' ↔
        (Expr.negate e).doublesMinus = false := by
      by_cases hvalue : ∃ v, e = .value v
      · obtain ⟨v, rfl⟩ := hvalue
        rw [ne_eq, Expr.fragments, head_literal, Bool.not_eq_true]
        rfl
      · have hplain : (Expr.negate e).doublesMinus = false := by
          cases e <;> first | rfl | exact absurd ⟨_, rfl⟩ hvalue
        simpa [hplain] using head_expr hwords (fun v hv => hvalue ⟨v, hv⟩) n
    rw [Expr.fragments, quiet_append_plain (by decide), quiet_minus, he hwords, hhead]
    simp [Expr.anyNode, and_comm]
  | cast e type he =>
    obtain ⟨htype, hwords⟩ := Expr.inVocabulary_cast.1 h
    simp (disch := decide) [Expr.fragments, quiet_append_plain, quiet_plain,
      quiet_plain (typeName_calm htype), he hwords, Expr.anyNode, Expr.doublesMinus]
  | isIn e es he hes =>
    obtain ⟨_, hwords, hvalues⟩ := Expr.inVocabulary_isIn.1 h
    have hlist : ∀ m, Quiet options style m (separated ", " (listFragments es)) ↔
        ∀ x ∈ es, x.anyNode Expr.doublesMinus = false :=
      list_quiet fun x hx => hes x hx (hvalues x hx)
    simp (disch := decide) [Expr.fragments, quiet_append_plain, quiet_plain, he hwords, hlist,
      Expr.anyNode, Expr.doublesMinus]
  | call f args hargs =>
    obtain ⟨hf, hwords⟩ := Expr.inVocabulary_call.1 h
    have hlist : ∀ m, Quiet options style m (separated ", " (listFragments args)) ↔
        ∀ x ∈ args, x.anyNode Expr.doublesMinus = false :=
      list_quiet fun x hx => hargs x hx (hwords x hx)
    simp (disch := decide) [Expr.fragments, quiet_append_plain, quiet_plain,
      quiet_plain (functionName_calm hf), hlist, Expr.anyNode, Expr.doublesMinus]
  | case whens otherwise hwhens hotherwise =>
    obtain ⟨_, hw, ho⟩ := Expr.inVocabulary_case.1 h
    have hwhen := fun m => whens_quiet (p := fun e => e.anyNode Expr.doublesMinus = false)
      (fun w hmem k => ⟨(hwhens w hmem).1 (hw w hmem).1 k, (hwhens w hmem).2 (hw w hmem).2 k⟩) m
    have helse := fun m => else_quiet (fun x hx => hotherwise x hx (ho x hx)) m
    rw [Expr.fragments, quiet_append_plain (by decide), quiet_append (resumes_else otherwise),
      quiet_plain (by decide), hwhen, helse, Expr.anyNode_case_eq_false]
    simp [Expr.doublesMinus]
  | window f clause hf hpartition horder =>
    obtain ⟨partitionBy, orderBy, frame⟩ := clause
    obtain ⟨_, hfunction, hp, ho⟩ := Expr.inVocabulary_window.1 h
    have hclauses := fun m => over_quiet (p := fun e => e.anyNode Expr.doublesMinus = false) frame
      (fun x hx => hpartition x hx (hp x hx)) (fun t ht => horder t ht (ho t ht)) m
    rw [Expr.fragments, quiet_append_plain (by decide), quiet_append_plain (by decide),
      hf hfunction, hclauses, Expr.anyNode_window_eq_false]
    simp [Expr.doublesMinus]
  | column r =>
    rw [Expr.fragments]
    simp [column_quiet, Expr.anyNode, Expr.doublesMinus]
  | value v =>
    rw [Expr.fragments]
    simp [literal_quiet, Expr.anyNode, Expr.doublesMinus]
  | countAll =>
    rw [Expr.fragments, quiet_singleton]
    decide

end Expressions

section Statements

variable {options : RenderOptions} {style : ParamStyle}

/-- No minus of an expression of the query stands directly before another. -/
def Select.SignsApart (q : Select) : Prop := ∀ e ∈ q.exprs, e.anyNode Expr.doublesMinus = false

lemma Select.everywhere_iff {P : Select → Prop} {q : Select} : q.Everywhere P ↔
    P q ∧ ∀ inner a, .subquery inner a ∈ q.items → inner.Everywhere P :=
  ⟨fun h => ⟨h.root, fun _ _ hmem p hp => h p (.inside hp hmem)⟩, fun h => .of_items h.1 h.2⟩

lemma column_entry_quiet (simpleNames : Bool) {c : String × Expr} (h : c.2.InVocabulary) (n : Nat) :
    Quiet options style n (columnFragments simpleNames c) ↔
      c.2.anyNode Expr.doublesMinus = false := by
  unfold columnFragments
  split
  · exact expr_quiet h n
  · rw [quiet_append_plain (by decide), expr_quiet h]
    simp [Quiet]

lemma where_quiet {condition : Expr} (h : condition.InVocabulary) (n : Nat) :
    Quiet options style n (whereFragments condition) ↔
      condition.anyNode Expr.doublesMinus = false := by
  unfold whereFragments
  split
  · rename_i htrue
    cases condition with
    | value v => simp [Expr.anyNode, Expr.doublesMinus]
    | _ => cases htrue
  · rw [quiet_plain (by decide), expr_quiet h]

lemma limit_quiet {keyword : String} (hkeyword : isCalm keyword = true) (limit : Option UInt32)
    (n : Nat) : Quiet options style n (limitFragments keyword limit) := by
  cases limit with
  | none => exact quiet_nil
  | some k =>
    rw [limitFragments, quiet_plain hkeyword, quiet_singleton]
    exact isChain_numeral (isNumeral_nat k.toNat)

lemma table_quiet (t : TableRef) (n : Nat) : Quiet options style n t.fragments := by
  obtain (⟨_ | _, _⟩ | _) := t <;>
    simp [Quiet, TableRef.fragments, TableAlias.fragment, Apart]

lemma alias_quiet (a : TableAlias) (n : Nat) : Quiet options style n [a.fragment] := by
  simp [Quiet, TableAlias.fragment]

/-- The property of a query and its subqueries, clause by clause. -/
lemma everywhere_signsApart_iff {q : Select} : q.Everywhere Select.SignsApart ↔
    (∀ c ∈ q.columns, c.2.anyNode Expr.doublesMinus = false) ∧
    (∀ inner a, q.source = some (.subquery inner a) → inner.Everywhere Select.SignsApart) ∧
    (∀ j ∈ q.joins, j.select.Everywhere Select.SignsApart ∧
      j.condition.anyNode Expr.doublesMinus = false) ∧
    q.condition.anyNode Expr.doublesMinus = false ∧
    (∀ e ∈ q.groupBy, e.anyNode Expr.doublesMinus = false) ∧
    ∀ t ∈ q.orderBy, t.target.anyNode Expr.doublesMinus = false := by
  rw [Select.everywhere_iff]
  constructor
  · rintro ⟨hexprs, hitems⟩
    have hexpr := fun e he => hexprs e (Select.mem_exprs.2 he)
    refine ⟨fun c hc => hexpr _ (Or.inl ⟨c, hc, rfl⟩), ?_, ?_, hexpr _ (by simp),
      fun e he => hexpr e (by simp [he]), fun t ht => hexpr _ ?_⟩
    · intro inner a hsource
      exact hitems inner a (by simp [Select.items, hsource])
    · intro j hj
      refine ⟨hitems j.select j.tableAlias ?_, hexpr _ ?_⟩
      · exact List.mem_append_right _ (List.mem_map.2 ⟨j, hj, rfl⟩)
      · exact Or.inr (Or.inr (Or.inr (Or.inr ⟨j, hj, rfl⟩)))
    · exact Or.inr (Or.inr (Or.inr (Or.inl ⟨t, ht, rfl⟩)))
  · rintro ⟨hcolumns, hsource, hjoins, hcondition, hgroup, horder⟩
    constructor
    · intro e he
      rcases Select.mem_exprs.1 he with ⟨c, hc, rfl⟩ | rfl | he | ⟨t, ht, rfl⟩ | ⟨j, hj, rfl⟩
      · exact hcolumns c hc
      · exact hcondition
      · exact hgroup e he
      · exact horder t ht
      · exact (hjoins j hj).2
    · intro inner a hmem
      rcases List.mem_append.1 hmem with hmem | hmem
      · exact hsource inner a (Option.mem_toList.1 hmem)
      · obtain ⟨j, hj, he⟩ := List.mem_map.1 hmem
        cases he
        exact (hjoins j hj).1

lemma resumes_plain {s : String} (hs : isCalm s = true) (fs : List Fragment) :
    Resumes (.plain s :: fs) := Or.inr ⟨s, fs, hs, rfl⟩

lemma resumes_source (simpleNames : Bool) (source : Option (Source Select)) :
    Resumes (sourceFragments simpleNames source) := by
  rcases source with _ | ⟨table, a⟩ | ⟨q, a⟩
  · exact Or.inl rfl
  · rw [sourceFragments]
    exact resumes_plain (by decide) _
  · rw [sourceFragments]
    exact resumes_plain (by decide) _

lemma joinKeyword_calm (type : JoinType) : isCalm type.keyword = true := by
  cases type <;> decide

lemma resumes_joins (simpleNames : Bool) (joins : List (Joined Select)) :
    Resumes (joinFragments simpleNames joins) := by
  rcases joins with _ | ⟨⟨type, q, a, condition⟩, rest⟩
  · exact Or.inl rfl
  · rw [joinFragments]
    exact resumes_plain (joinKeyword_calm type) _

lemma resumes_where (condition : Expr) : Resumes (whereFragments condition) := by
  unfold whereFragments
  split
  · exact Or.inl rfl
  · exact resumes_plain (by decide) _

lemma resumes_clause {keyword : String} (hkeyword : isCalm keyword = true)
    (items : List (List Fragment)) : Resumes (clause keyword items).flatten := by
  unfold clause
  split
  · exact Or.inl rfl
  · exact resumes_plain hkeyword _

lemma resumes_limit {keyword : String} (hkeyword : isCalm keyword = true) (limit : Option UInt32) :
    Resumes (limitFragments keyword limit) := by
  cases limit with
  | none => exact Or.inl rfl
  | some k => exact resumes_plain hkeyword _

mutual

/-- The text of a query opens a comment exactly when a minus of an expression in it, or in a query
nested in it, stands directly before another. -/
theorem select_quiet (simpleNames : Bool) : ∀ q : Select, q.InVocabulary → ∀ n,
    (Quiet options style n (q.fragments simpleNames) ↔ q.Everywhere Select.SignsApart)
  | ⟨distinct, columns, source, joins, condition, groupBy, orderBy, limit, offset⟩, h, n => by
    have hroot := h.root
    have hcolumns : ∀ m, Quiet options style m
        (separated ", " (columns.map (columnFragments simpleNames))) ↔
        ∀ c ∈ columns, c.2.anyNode Expr.doublesMinus = false :=
      quiet_separated (fun c hc => column_entry_quiet simpleNames (hroot.column hc)) (by decide)
    have hhead : ∀ m, Quiet options style m (.plain "SELECT " ::
        (if distinct then [.plain "DISTINCT "] else []) ++
        separated ", " (columns.map (columnFragments simpleNames))) ↔
        ∀ c ∈ columns, c.2.anyNode Expr.doublesMinus = false := by
      intro m
      cases distinct <;> simp (disch := decide) [quiet_plain, hcolumns]
    have hsource := source_quiet simpleNames source (by
      rintro q a rfl p hp
      exact h p (.inside hp (a := a) (by simp [Select.items])))
    have hjoins := joins_quiet simpleNames joins (by
      intro j hj
      refine ⟨fun p hp => h p (.inside hp (a := j.tableAlias) ?_), hroot.joins j hj⟩
      exact List.mem_append_right _ (List.mem_map.2 ⟨j, hj, rfl⟩))
    have hgroup : ∀ m, Quiet options style m (clause " GROUP BY " (listFragments groupBy)).flatten ↔
        ∀ e ∈ groupBy, e.anyNode Expr.doublesMinus = false :=
      clause_quiet (by decide) (list_quiet fun e he => expr_quiet (hroot.group e he))
    have horder : ∀ m, Quiet options style m
        (clause " ORDER BY " (orderFragments orderBy)).flatten ↔
        ∀ t ∈ orderBy, t.target.anyNode Expr.doublesMinus = false :=
      clause_quiet (by decide) (ordered_quiet (p := fun e => e.anyNode Expr.doublesMinus = false)
        fun t ht => expr_quiet (hroot.order t ht))
    rw [Select.fragments, quiet_append (resumes_limit (by decide) offset),
      quiet_append (resumes_limit (by decide) limit), quiet_append (resumes_clause (by decide) _),
      quiet_append (resumes_clause (by decide) _), quiet_append (resumes_where condition),
      quiet_append (resumes_joins simpleNames joins),
      quiet_append (resumes_source simpleNames source), hhead, hsource, hjoins,
      where_quiet hroot.condition, hgroup, horder, everywhere_signsApart_iff]
    simp only [limit_quiet (show isCalm " LIMIT " = true by decide),
      limit_quiet (show isCalm " OFFSET " = true by decide), and_true, and_assoc]

theorem source_quiet (simpleNames : Bool) : ∀ source : Option (Source Select),
    (∀ q a, source = some (.subquery q a) → q.InVocabulary) → ∀ n,
      (Quiet options style n (sourceFragments simpleNames source) ↔
        ∀ inner a, source = some (.subquery inner a) → inner.Everywhere Select.SignsApart)
  | none, _, _ => by simp [sourceFragments]
  | some (.table table a), _, n => by
    rw [sourceFragments, quiet_append_plain (by decide), quiet_plain (by decide)]
    simp [table_quiet, alias_quiet]
  | some (.subquery q a), h, n => by
    have hq := select_quiet simpleNames q (h q a rfl)
    rw [sourceFragments, quiet_append_plain (by decide), quiet_plain (by decide), hq]
    simp [alias_quiet]

theorem joins_quiet (simpleNames : Bool) : ∀ joins : List (Joined Select),
    (∀ j ∈ joins, j.select.InVocabulary ∧ j.condition.InVocabulary) → ∀ n,
      (Quiet options style n (joinFragments simpleNames joins) ↔
        ∀ j ∈ joins, j.select.Everywhere Select.SignsApart ∧
          j.condition.anyNode Expr.doublesMinus = false)
  | [], _, _ => by simp [joinFragments]
  | ⟨type, q, a, condition⟩ :: rest, h, n => by
    have hq := select_quiet simpleNames q (h _ List.mem_cons_self).1
    have hrest := joins_quiet simpleNames rest fun j hj => h j (List.mem_cons_of_mem _ hj)
    have hwords : condition.InVocabulary := (h _ List.mem_cons_self).2
    have halias : ∀ m, Quiet options style m (a.fragment :: .plain " ON " :: condition.fragments) ↔
        condition.anyNode Expr.doublesMinus = false := by
      intro m
      have hon : isCalm " ON " = true := by decide
      rw [← List.singleton_append, quiet_append_plain hon, expr_quiet hwords]
      simp [alias_quiet]
    rw [joinFragments, quiet_append (resumes_joins simpleNames rest), hrest,
      quiet_append_plain (by decide), quiet_plain (joinKeyword_calm type), quiet_plain (by decide),
      hq, halias, List.forall_mem_cons]

end

lemma statement_quiet {simpleNames : Bool} {q : Select} (h : q.InVocabulary)
    (plan : Option ExplainStyle) (n : Nat) :
    Quiet options style n (q.statementFragments simpleNames plan) ↔
      q.Everywhere Select.SignsApart := by
  rw [← select_quiet simpleNames q h]
  cases plan with
  | none => rfl
  | some plan =>
    have hkeyword : isCalm plan.keyword = true := by
      cases plan <;> decide
    exact quiet_plain hkeyword

end Statements

end Sql

/-- A statement opens a comment outside of its quotes exactly when some expression in it negates a
constant that is written with a minus sign. Nothing else does it, whatever constants occur and
however operations are nested. -/
theorem comment_opened_iff {tables : Set TableInfo} {s : QueryState}
    (h : Reachable tables {f | ∃ dialect, f = .builtIn dialect} s) (options : RenderOptions)
    (style : ParamStyle) (plan : Option ExplainStyle) :
    ∃ found, split (s.last.statement options style plan).sql = some found ∧
      ((∃ piece ∈ found.pieces, OpensComment piece) ↔
        ∃ q, Select.Nested q s.last ∧ ∃ e ∈ q.exprs, e.anyNode Expr.doublesMinus = true) := by
  have hwords : s.last.InVocabulary := inVocabulary_inherited.reachable h
  have hspaced : Spaced (s.last.statementFragments options.simpleNames plan) :=
    statement_spaced hwords plan
  refine ⟨.ofFragments options style 0 (s.last.statementFragments options.simpleNames plan), ?_, ?_⟩
  · rw [statement_eq, split_assemble options style hspaced]
  · have hquiet : Quiet options style 0 (s.last.statementFragments options.simpleNames plan) ↔
        s.last.Everywhere Select.SignsApart := statement_quiet hwords plan 0
    rw [quiet_iff_pieces] at hquiet
    rw [← not_iff_not]
    simpa [Select.Everywhere, Select.SignsApart] using hquiet

/-- Negative constants where operators, a minus and a division stand around them. -/
def negativeConstants : Request where
  collection := "people"
  pipeline := [.mutate (.ofList [("y", .call .divide [.call .subtract [.column "x",
      .literal (.int (-1))] [], .call .negate [.call .negate [.column "x"] []] []] []),
    ("z", .literal (.str "--/*"))])]

theorem negativeConstants_open_no_comment : ∃ s,
    negativeConstants.run peopleCatalog (.builtIn .postgres) = .ok s ∧
      (∃ found, split (s.last.statement ⟨true, false⟩ .dollar none).sql = some found ∧
        ∀ piece ∈ found.pieces, ¬OpensComment piece) ∧
      ¬∃ q, Select.Nested q s.last ∧ ∃ e ∈ q.exprs, e.anyNode Expr.doublesMinus = true := by
  have hrun : (negativeConstants.run peopleCatalog (.builtIn .postgres)).map (fun s =>
      (split (s.last.statement ⟨true, false⟩ .dollar none).sql).map fun found =>
        decide (∀ piece ∈ found.pieces, ¬OpensComment piece)) = .ok (some true) := by
    decide +kernel
  obtain ⟨s, hs, hsplit⟩ := map_eq_ok.1 hrun
  have hreach : Reachable peopleCatalog.infos {f | ∃ dialect, f = .builtIn dialect} s := by
    apply (negativeConstants.run_reachable hs).mono
    exact fun f hf => ⟨.postgres, hf⟩
  obtain ⟨found, hfound, hiff⟩ := comment_opened_iff hreach ⟨true, false⟩ .dollar none
  rw [hfound, Option.map_some, Option.some.injEq, decide_eq_true_eq] at hsplit
  refine ⟨s, hs, ⟨found, hfound, hsplit⟩, ?_⟩
  rw [← hiff]
  rintro ⟨piece, hpiece, hopens⟩
  exact hsplit piece hpiece hopens

/-- The negation of a negative number. -/
def negatedNegative : Request where
  collection := "people"
  pipeline := [.mutate (.ofList [("y", .call .negate [.literal (.int (-1))] [])])]

/-- Its two signs touch, and the rest of the statement is a comment. -/
theorem negatedNegative_opens_comment : ∃ s,
    Reachable peopleCatalog.infos {f | ∃ dialect, f = .builtIn dialect} s ∧
      negatedNegative.run peopleCatalog (.builtIn .postgres) = .ok s ∧
      (s.last.statement {} .dollar none).sql =
        "SELECT \"people_0\".\"g\" AS \"g\", \"people_0\".\"x\" AS \"x\", (--1) AS \"y\" " ++
          "FROM \"public\".\"people\" AS \"people_0\"" ∧
      ∃ found, split (s.last.statement {} .dollar none).sql = some found ∧
        ∃ piece ∈ found.pieces, OpensComment piece := by
  have hrun : (negatedNegative.run peopleCatalog (.builtIn .postgres)).map (fun s =>
      ((s.last.statement {} .dollar none).sql,
        (split (s.last.statement {} .dollar none).sql).map fun found =>
          decide (∃ piece ∈ found.pieces, OpensComment piece))) =
      .ok ("SELECT \"people_0\".\"g\" AS \"g\", \"people_0\".\"x\" AS \"x\", (--1) AS \"y\" " ++
        "FROM \"public\".\"people\" AS \"people_0\"", some true) := by
    decide +kernel
  obtain ⟨s, hs, hsql⟩ := map_eq_ok.1 hrun
  obtain ⟨htext, hsplit⟩ := Prod.mk.inj hsql
  obtain ⟨found, hfound, hopens⟩ := Option.map_eq_some_iff.1 hsplit
  refine ⟨s, ?_, hs, htext, found, hfound, of_decide_eq_true hopens⟩
  apply (negatedNegative.run_reachable hs).mono
  exact fun f hf => ⟨.postgres, hf⟩

end PipelineSql
