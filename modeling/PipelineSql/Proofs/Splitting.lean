import Mathlib.Data.List.Chain
import PipelineSql.Proofs.Identifiers
import PipelineSql.Proofs.Numerals
import PipelineSql.Proofs.Rendering
import PipelineSql.Proofs.Vocabulary

/-!
# Cutting a statement at its quotes

A reader of SQL finds the quoted parts of a statement from left to right: a quote opens one, a
doubled quote inside stands for a quote, and a single one closes it. The parts that it finds are
the ones that were written, as long as no two of them touch.
-/

namespace PipelineSql.Sql

section Reading

/-- A quoted part of a text, without its quotes. -/
structure QuotedPart where
  quote : Char
  content : List Char
deriving DecidableEq

/-- A text cut at its quoted parts: what stands before the first of them, and each of them with
what stands after it. -/
structure Split where
  text : List Char := []
  parts : List (QuotedPart × List Char) := []
deriving DecidableEq

def isQuote (c : Char) : Bool := c = '"' || c = '\''

namespace Split

/-- A split after more text. -/
def afterText (cs : List Char) (s : Split) : Split := { s with text := cs ++ s.text }

/-- A split after one more quoted part. -/
def afterPart (part : QuotedPart) (s : Split) : Split := ⟨[], (part, s.text) :: s.parts⟩

@[simp] lemma afterText_nil (s : Split) : s.afterText [] = s := rfl

end Split

mutual

/-- Cuts a text at its quotes; there is no split when the last quote is not closed. -/
def splitOutside : List Char → Option Split
  | [] => some {}
  | c :: cs =>
    if isQuote c then
      (splitInside c cs).map fun found => found.2.afterPart ⟨c, found.1⟩
    else (splitOutside cs).map (Split.afterText [c])

/-- Reads on to the end of a quoted part and cuts what stands behind it. -/
def splitInside (quote : Char) : List Char → Option (List Char × Split)
  | [] => none
  | c :: cs =>
    if c = quote then
      match cs with
      | [] => some ([], {})
      | d :: ds =>
        if d = quote then (splitInside quote ds).map fun found => (d :: found.1, found.2)
        else (splitOutside (d :: ds)).map fun s => ([], s)
    else (splitInside quote cs).map fun found => (c :: found.1, found.2)

end

/-- Cuts a statement at its quotes. -/
def split (s : String) : Option Split := splitOutside s.toList

lemma splitOutside_text {cs : List Char} (h : ∀ c ∈ cs, isQuote c = false) (rest : List Char) :
    splitOutside (cs ++ rest) = (splitOutside rest).map (Split.afterText cs) := by
  induction cs with
  | nil => cases h : splitOutside rest <;> simp [h]
  | cons c cs ih =>
    rw [List.cons_append, splitOutside, if_neg (by simp [h c]), ih fun d hd => h d (by simp [hd]),
      Option.map_map]
    rfl

lemma splitInside_of_ne {quote c : Char} (h : c ≠ quote) (cs : List Char) :
    splitInside quote (c :: cs) =
      (splitInside quote cs).map fun found => (c :: found.1, found.2) := by
  cases cs <;> simp [splitInside, h]

/-- A quoted part is read up to its last quote, unless one more follows. -/
lemma splitInside_doubled {quote : Char} {rest : List Char} (h : rest.head? ≠ some quote)
    (cs : List Char) : splitInside quote (doubled quote cs ++ quote :: rest) =
      (splitOutside rest).map fun s => (cs, s) := by
  induction cs with
  | nil =>
    cases rest with
    | nil => simp [doubled, splitInside, splitOutside]
    | cons d ds =>
      have hd : d ≠ quote := by simpa using h
      simp [doubled, splitInside, hd]
  | cons c cs ih =>
    by_cases hc : c = quote
    · have hdoubled : doubled quote (c :: cs) = c :: c :: doubled quote cs := by simp [doubled, hc]
      rw [hdoubled, List.cons_append, List.cons_append]
      simp [splitInside, hc, ih, Function.comp_def]
    · have hdoubled : doubled quote (c :: cs) = c :: doubled quote cs := by simp [doubled, hc]
      rw [hdoubled, List.cons_append, splitInside_of_ne hc, ih, Option.map_map]
      rfl

lemma splitOutside_enclose {quote : Char} {rest : List Char} (hquote : isQuote quote = true)
    (h : rest.head? ≠ some quote) (s : String) : splitOutside ((enclose quote s).toList ++ rest) =
      (splitOutside rest).map (Split.afterPart ⟨quote, s.toList⟩) := by
  have henclose : (enclose quote s).toList ++ rest =
      quote :: (doubled quote s.toList ++ quote :: rest) := by
    simp [enclose, doubled]
  rw [henclose, splitOutside, if_pos hquote, splitInside_doubled h, Option.map_map]
  rfl

end Reading

section Writing

variable (options : RenderOptions) (style : ParamStyle)

namespace Fragment

/-- The quoted part that a fragment writes. -/
def part? : Fragment → Option QuotedPart
  | .plain _ => none
  | .identifier name => some ⟨'"', name.toList⟩
  | .quoted s => some ⟨'\'', s.toList⟩
  | .param s => if options.literalBinds then some ⟨'\'', s.toList⟩ else none

/-- The text that a fragment writes without quotes, after `n` placeholders. -/
def bare (n : Nat) : Fragment → String
  | .plain s => s
  | .param _ => style.placeholder (n + 1)
  | _ => ""

/-- The number of placeholders that a fragment writes. -/
def placeholders : Fragment → Nat
  | .param _ => if options.literalBinds then 0 else 1
  | _ => 0

/-- What a fragment writes after `n` placeholders. -/
def written (n : Nat) (f : Fragment) : List Char :=
  match f.part? options with
  | some part => (enclose part.quote (String.ofList part.content)).toList
  | none => (f.bare style n).toList

end Fragment

/-- What fragments write after `n` placeholders. -/
def written : Nat → List Fragment → List Char
  | _, [] => []
  | n, f :: fs => f.written options style n ++ written (n + f.placeholders options) fs

/-- What fragments write, cut where the fragments are quoted. -/
def Split.ofFragments : Nat → List Fragment → Split
  | _, [] => {}
  | n, f :: fs =>
    match f.part? options with
    | some part => (ofFragments (n + f.placeholders options) fs).afterPart part
    | none => (ofFragments (n + f.placeholders options) fs).afterText (f.bare style n).toList

lemma Split.parts_ofFragments (n : Nat) (fs : List Fragment) :
    (ofFragments options style n fs).parts.map Prod.fst =
      fs.filterMap (Fragment.part? options) := by
  induction fs generalizing n with
  | nil => rfl
  | cons f fs ih =>
    rw [ofFragments, List.filterMap_cons]
    cases hpart : f.part? options with
    | some part => simp [afterPart, ih]
    | none => simp [afterText, ih]

lemma append_eq (t : SqlText) (f : Fragment) : (t.append options style f).sql.toList =
      t.sql.toList ++ f.written options style t.paramIndex ∧
    (t.append options style f).paramIndex = t.paramIndex + f.placeholders options := by
  cases f with
  | param s =>
    by_cases hbinds : options.literalBinds = true <;>
      simp [SqlText.append, SqlText.push, Fragment.written, Fragment.part?, Fragment.bare,
        Fragment.placeholders, hbinds]
  | plain s | identifier s | quoted s =>
    simp [SqlText.append, SqlText.push, Fragment.written, Fragment.part?, Fragment.bare,
      Fragment.placeholders]

lemma assemble_sql (fs : List Fragment) :
    (SqlText.assemble options style fs).sql.toList = written options style 0 fs := by
  have hfold : ∀ t : SqlText, (fs.foldl (SqlText.append options style) t).sql.toList =
      t.sql.toList ++ written options style t.paramIndex fs := by
    induction fs with
    | nil => simp [written]
    | cons f fs ih =>
      intro t
      obtain ⟨hsql, hindex⟩ := append_eq options style t f
      rw [List.foldl_cons, ih, hsql, hindex, written, List.append_assoc]
  exact hfold {}

end Writing

section Spacing

/-- Whether a text can stand unquoted between quoted parts. -/
def isPlainText (s : String) : Bool := s.toList != [] && s.toList.all fun c => !isQuote c

lemma isPlainText_iff {s : String} :
    isPlainText s = true ↔ s.toList ≠ [] ∧ ∀ c ∈ s.toList, isQuote c = false := by
  simp [isPlainText]

lemma isPlainText_append {s t : String} (hs : isPlainText s = true)
    (ht : ∀ c ∈ t.toList, isQuote c = false) : isPlainText (s ++ t) = true := by
  rw [isPlainText_iff] at hs ⊢
  rw [String.toList_append]
  refine ⟨List.append_ne_nil_of_left_ne_nil hs.1 _, ?_⟩
  intro c hc
  rcases List.mem_append.1 hc with hc | hc
  · exact hs.2 c hc
  · exact ht c hc

def Fragment.isPlain : Fragment → Bool
  | .plain _ => true
  | _ => false

/-- Plain text stands between any two quoted parts. -/
structure Spaced (fs : List Fragment) : Prop where
  texts : ∀ s, .plain s ∈ fs → isPlainText s = true
  apart : fs.IsChain fun f g => f.isPlain = true ∨ g.isPlain = true

@[simp] lemma spaced_nil : Spaced [] := ⟨by simp, .nil⟩

lemma spaced_singleton {f : Fragment} (h : ∀ s, f = .plain s → isPlainText s = true) :
    Spaced [f] :=
  ⟨fun s hs => h s (List.mem_singleton.1 hs).symm, .singleton _⟩

/-- Fragments around plain text do not depend on each other. -/
@[simp] lemma spaced_append_plain {s : String} {fs gs : List Fragment} :
    Spaced (fs ++ .plain s :: gs) ↔ Spaced fs ∧ isPlainText s = true ∧ Spaced gs := by
  constructor
  · intro h
    have hchain := List.isChain_append.1 h.apart
    refine ⟨⟨?_, hchain.1⟩, h.texts s (by simp), ?_, hchain.2.1.tail⟩
    · exact fun t ht => h.texts t (by simp [ht])
    · exact fun t ht => h.texts t (by simp [ht])
  · rintro ⟨hfs, hs, hgs⟩
    constructor
    · intro t ht
      rcases List.mem_append.1 ht with ht | ht
      · exact hfs.texts t ht
      · rcases List.mem_cons.1 ht with ht | ht
        · cases ht
          exact hs
        · exact hgs.texts t ht
    · refine List.isChain_append.2 ⟨hfs.apart, ?_, ?_⟩
      · exact hgs.apart.cons fun g _ => Or.inl rfl
      · intro f _ g hg
        cases hg
        exact Or.inr rfl

@[simp] lemma spaced_plain {s : String} {fs : List Fragment} :
    Spaced (.plain s :: fs) ↔ isPlainText s = true ∧ Spaced fs := by
  have h : Spaced ([] ++ .plain s :: fs) ↔ Spaced [] ∧ isPlainText s = true ∧ Spaced fs :=
    spaced_append_plain
  simpa using h

/-- Fragments that can stand behind any others. -/
structure Continues (fs : List Fragment) : Prop where
  spaced : Spaced fs
  first : ∀ f ∈ fs.head?, f.isPlain = true

lemma continues_nil : Continues [] := ⟨spaced_nil, by simp⟩

lemma continues_plain {s : String} {fs : List Fragment} (hs : isPlainText s = true)
    (h : Spaced fs) : Continues (.plain s :: fs) :=
  ⟨spaced_plain.2 ⟨hs, h⟩, by simp [Fragment.isPlain]⟩

lemma Spaced.append {fs gs : List Fragment} (hfs : Spaced fs) (hgs : Continues gs) :
    Spaced (fs ++ gs) := by
  constructor
  · intro s hs
    rcases List.mem_append.1 hs with hs | hs
    · exact hfs.texts s hs
    · exact hgs.spaced.texts s hs
  · refine List.isChain_append.2 ⟨hfs.apart, hgs.spaced.apart, ?_⟩
    exact fun _ _ g hg => Or.inr (hgs.first g hg)

lemma continues_flatten {items : List (List Fragment)} (h : ∀ item ∈ items, Continues item) :
    Continues items.flatten := by
  induction items with
  | nil => exact continues_nil
  | cons item items ih =>
    have hitem := h item (by simp)
    have hitems := ih fun i hi => h i (by simp [hi])
    refine ⟨hitem.spaced.append hitems, ?_⟩
    cases item with
    | nil => exact hitems.first
    | cons f fs => simpa using hitem.first

lemma spaced_separated {between : String} {items : List (List Fragment)}
    (hbetween : isPlainText between = true) (h : ∀ item ∈ items, Spaced item) :
    Spaced (separated between items) := by
  induction items using separated.induct with
  | case1 => exact spaced_nil
  | case2 item => exact h item (by simp)
  | case3 item rest hrest ih =>
    rw [separated]
    · exact spaced_append_plain.2 ⟨h item (by simp), hbetween, ih fun i hi => h i (by simp [hi])⟩
    · exact hrest

variable (options : RenderOptions) (style : ParamStyle)

lemma isQuote_of_isDigit {c : Char} (h : c.isDigit = true) : isQuote c = false := by
  have hquotes : c ≠ '"' ∧ c ≠ '\'' := by
    constructor <;> rintro rfl <;> cases h
  simp [isQuote, hquotes]

lemma placeholder_plain (n : Nat) : isPlainText (style.placeholder n) = true := by
  cases style with
  | dollar =>
    apply isPlainText_append (by decide)
    exact fun c hc => isQuote_of_isDigit (isDigit_of_mem_repr hc)
  | questionMark =>
    change isPlainText "?" = true
    decide

lemma Fragment.of_part? {f : Fragment} {part : QuotedPart} (h : f.part? options = some part) :
    f.isPlain = false ∧ isQuote part.quote = true := by
  cases f with
  | plain s => cases h
  | identifier name | quoted s =>
    cases h
    exact ⟨rfl, rfl⟩
  | param s =>
    simp only [part?, Option.ite_none_right_eq_some, Option.some.injEq] at h
    rw [← h.2]
    exact ⟨rfl, rfl⟩

/-- The text behind a quoted part does not go on with a quote. -/
lemma head_written {f : Fragment} {fs : List Fragment} (h : Spaced (f :: fs))
    (hf : f.isPlain = false) (n : Nat) {quote : Char} (hquote : isQuote quote = true) :
    (written options style n fs).head? ≠ some quote := by
  cases fs with
  | nil => simp [written]
  | cons g gs =>
    have hg : g.isPlain = true := by
      have := (List.isChain_cons.1 h.apart).1 g rfl
      simpa [hf] using this
    cases g with
    | plain s =>
      obtain ⟨hne, htext⟩ := isPlainText_iff.1 (h.texts s (by simp))
      obtain ⟨c, cs, hcs⟩ := List.exists_cons_of_ne_nil hne
      have hc : isQuote c = false := htext c (by simp [hcs])
      simp only [written, Fragment.written, Fragment.part?, Fragment.bare, hcs, List.cons_append,
        List.head?_cons, ne_eq, Option.some.injEq]
      rintro rfl
      rw [hc] at hquote
      cases hquote
    | identifier _ | quoted _ | param _ => cases hg

lemma Spaced.tail {f : Fragment} {fs : List Fragment} (h : Spaced (f :: fs)) : Spaced fs :=
  ⟨fun s hs => h.texts s (List.mem_cons_of_mem _ hs), h.apart.tail⟩

/-- A reader finds the quoted parts that were written, when plain text stands between them. -/
theorem splitOutside_written {fs : List Fragment} (h : Spaced fs) (n : Nat) :
    splitOutside (written options style n fs) = some (.ofFragments options style n fs) := by
  -- Placeholders are numbered along the statement: `n` of them stand before these fragments.
  induction fs generalizing n with
  | nil => rfl
  | cons f fs ih =>
    have hrest := ih h.tail (n + f.placeholders options)
    rw [written, Split.ofFragments, Fragment.written]
    cases hpart : f.part? options with
    | some part =>
      obtain ⟨hplain, hquote⟩ := Fragment.of_part? options hpart
      dsimp only
      rw [splitOutside_enclose hquote (head_written options style h hplain _ hquote), hrest,
        String.toList_ofList]
      rfl
    | none =>
      have htext : ∀ c ∈ (f.bare style n).toList, isQuote c = false := by
        cases f with
        | plain s => exact (isPlainText_iff.1 (h.texts s (by simp))).2
        | param s => exact (isPlainText_iff.1 (placeholder_plain style (n + 1))).2
        | identifier _ | quoted _ => cases hpart
      dsimp only
      rw [splitOutside_text htext, hrest]
      rfl

lemma split_assemble {fs : List Fragment} (h : Spaced fs) :
    split (SqlText.assemble options style fs).sql = some (.ofFragments options style 0 fs) := by
  rw [split, assemble_sql, splitOutside_written options style h]

end Spacing

section Expressions

lemma isQuote_of_mem_numeral {cs : List Char} (h : IsNumeral cs) :
    ∀ c ∈ cs, isQuote c = false := by
  intro c hc
  rcases h.isNumeralChar_or c hc with hchar | rfl
  · simp only [isNumeralChar, Bool.or_eq_true, decide_eq_true_eq] at hchar
    rcases hchar with (hdigit | rfl) | rfl
    · exact isQuote_of_isDigit hdigit
    · decide
    · decide
  · decide

lemma numeral_plain {negative : Bool} {s : String} (h : IsNumeral s.toList) :
    isPlainText (Literal.signText negative ++ s) = true := by
  rw [isPlainText_iff]
  obtain ⟨d, ds, hs, _⟩ := h.head
  have hquotes := isQuote_of_mem_numeral h
  cases negative with
  | false => simpa [Literal.signText, hs] using hquotes
  | true =>
    constructor
    · simp [Literal.signText]
    · simpa [Literal.signText] using ⟨by decide, hquotes⟩

lemma literal_spaced (v : Literal) : Spaced [literalFragment v] := by
  apply spaced_singleton
  intro s hs
  cases v with
  | null =>
    cases hs
    decide
  | bool b =>
    cases b <;> cases hs <;> decide
  | int i =>
    cases hs
    rw [Literal.intText_eq]
    exact numeral_plain (isNumeral_nat _)
  | float x =>
    cases hs
    by_cases hfinite : x.isFinite = true
    · rw [Literal.floatText_eq hfinite]
      exact numeral_plain (isNumeral_magnitude rfl hfinite)
    · rw [Literal.floatText, NumberLayout.write, if_neg hfinite]
      split
      · decide
      · split <;> decide
  | str s => cases hs

lemma operator_plain {name : String} (h : name ∈ operators) :
    isPlainText (" " ++ name ++ " ") = true := by
  revert name
  decide

lemma functionName_plain {name : String} (h : name ∈ functionNames) : isPlainText name = true := by
  revert name
  decide

lemma typeName_plain {name : String} (h : name ∈ typeNames) : isPlainText name = true := by
  revert name
  decide

lemma table_spaced (t : TableRef) : Spaced t.fragments := by
  cases t with
  | stored schema table =>
    cases schema with
    | none => exact spaced_singleton (by simp)
    | some schema =>
      have hdot : isPlainText "." = true := by decide
      have hname : ∀ name, Spaced [.identifier name] := fun name => spaced_singleton (by simp)
      exact spaced_append_plain.2 ⟨hname schema, hdot, hname table⟩
  | aliased a => exact spaced_singleton (by simp [TableAlias.fragment])

lemma column_spaced (r : ColumnRef) : Spaced r.fragments := by
  have hdot : isPlainText "." = true := by decide
  have hname : ∀ name, Spaced [.identifier name] := fun name => spaced_singleton (by simp)
  cases r with
  | stored table name => exact spaced_append_plain.2 ⟨table_spaced table, hdot, hname name⟩
  | labelled table label => exact spaced_append_plain.2 ⟨table_spaced table, hdot, hname label⟩

lemma clause_spaced {keyword : String} (hkeyword : isPlainText keyword = true)
    {items : List (List Fragment)} (h : ∀ item ∈ items, Spaced item) :
    ∀ item ∈ clause keyword items, Spaced item := by
  unfold clause
  split
  · simp
  · simpa using ⟨hkeyword, spaced_separated (by decide) h⟩

lemma frame_spaced (f : Frame) : Spaced f.fragments := by
  obtain ⟨first, last⟩ := f
  have hwords : ∀ b : FrameBound, isPlainText b.words = true := by
    intro b
    cases b <;> decide
  simp only [Frame.fragments, spaced_plain, hwords, spaced_nil, and_true, true_and]
  decide

lemma list_spaced {es : List Expr} (h : ∀ e ∈ es, Spaced e.fragments) :
    ∀ item ∈ listFragments es, Spaced item := by
  rw [listFragments_eq]
  simpa using h

lemma ordered_spaced {terms : List (Ordered Expr)} (h : ∀ t ∈ terms, Spaced t.target.fragments) :
    ∀ item ∈ orderFragments terms, Spaced item := by
  rw [orderFragments_eq]
  intro item hitem
  obtain ⟨t, ht, rfl⟩ := List.mem_map.1 hitem
  have hkeyword : isPlainText t.direction.keyword = true := by
    cases t.direction <;> decide
  exact spaced_append_plain.2 ⟨h t ht, hkeyword, spaced_nil⟩

/-- The fragments of an expression keep its quoted parts apart. -/
theorem expr_spaced {e : Expr} (h : e.InVocabulary) : Spaced e.fragments := by
  induction e using Expr.induct with
  | and l r hl hr | or l r hl hr =>
    simp_all +decide [Expr.fragments]
  | binary l operator r hl hr =>
    have hoperator := operator_plain (Expr.inVocabulary_binary.1 h).1
    simp_all +decide [Expr.fragments]
  | not e he | isNull e he | isNotNull e he | negate e he | count e he | countDistinct e he =>
    simp_all +decide [Expr.fragments]
  | cast e type he =>
    have htype := typeName_plain (Expr.inVocabulary_cast.1 h).1
    simp_all +decide [Expr.fragments]
  | isIn e es he hes =>
    obtain ⟨_, hwords, hvalues⟩ := Expr.inVocabulary_isIn.1 h
    have hlist : Spaced (separated ", " (listFragments es)) :=
      spaced_separated (by decide) (list_spaced fun x hx => hes x hx (hvalues x hx))
    simp_all +decide [Expr.fragments]
  | call f args hargs =>
    obtain ⟨hf, hwords⟩ := Expr.inVocabulary_call.1 h
    have hlist : Spaced (separated ", " (listFragments args)) :=
      spaced_separated (by decide) (list_spaced fun x hx => hargs x hx (hwords x hx))
    have hname := functionName_plain hf
    simp_all +decide [Expr.fragments]
  | case whens otherwise hwhens hotherwise =>
    obtain ⟨_, hw, ho⟩ := Expr.inVocabulary_case.1 h
    have hcase : Spaced (.plain "CASE" :: whenFragments whens) := by
      rw [whenFragments_eq, List.flatMap_def, spaced_plain]
      refine ⟨by decide, (continues_flatten ?_).spaced⟩
      intro item hitem
      obtain ⟨w, hmem, rfl⟩ := List.mem_map.1 hitem
      apply continues_plain (by decide)
      apply spaced_append_plain.2
      exact ⟨(hwhens w hmem).1 (hw w hmem).1, by decide, (hwhens w hmem).2 (hw w hmem).2⟩
    rw [Expr.fragments, spaced_append_plain]
    refine ⟨?_, by decide, spaced_nil⟩
    cases otherwise with
    | none => simpa [elseFragments] using hcase
    | some x => exact spaced_append_plain.2 ⟨hcase, by decide, hotherwise x rfl (ho x rfl)⟩
  | window f clause hf hpartition horder =>
    obtain ⟨partitionBy, orderBy, frame⟩ := clause
    obtain ⟨_, hfunction, hp, ho⟩ := Expr.inVocabulary_window.1 h
    have hpart : ∀ item ∈ Sql.clause "PARTITION BY " (listFragments partitionBy), Spaced item :=
      clause_spaced (by decide) (list_spaced fun x hx => hpartition x hx (hp x hx))
    have hord : ∀ item ∈ Sql.clause "ORDER BY " (orderFragments orderBy), Spaced item :=
      clause_spaced (by decide) (ordered_spaced fun t ht => horder t ht (ho t ht))
    have hframe : ∀ item ∈ (frame.map Frame.fragments).toList, Spaced item := by
      cases frame with
      | none => simp
      | some f => simpa using frame_spaced f
    have hclauses := List.forall_mem_append.2 ⟨List.forall_mem_append.2 ⟨hpart, hord⟩, hframe⟩
    rw [Expr.fragments, spaced_append_plain, spaced_append_plain]
    exact ⟨⟨hf hfunction, by decide, spaced_separated (by decide) hclauses⟩, by decide, spaced_nil⟩
  | column r => exact column_spaced r
  | value v => exact literal_spaced v
  | countAll => exact spaced_singleton (by simp +decide)

end Expressions

end PipelineSql.Sql
