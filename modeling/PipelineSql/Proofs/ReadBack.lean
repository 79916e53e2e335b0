import PipelineSql.Proofs.OperandReading

/-!
# Expressions read back from their text

Nearly every operation brings its own parentheses, so its text reads back as the tree that it came
from. `NOT` does not, and is read with all that it captures.
-/

namespace PipelineSql

open Sql

namespace Sql

section Expressions

lemma plainTokens_opening : plainTokens "(".toList = some [.opening] := by decide

lemma plainTokens_closing : plainTokens ")".toList = some [.closing] := by decide

lemma Legible.enclosed {fs : List Fragment} {ts : List Token} (h : Legible fs ts) :
    Legible (.plain "(" :: fs ++ [.plain ")"]) (.opening :: ts ++ [.closing]) :=
  (h.plain plainTokens_opening (by decide)).before plainTokens_closing (by decide)

/-- The parenthesis that closes a group gives its operators their operands. -/
lemma after_closing_group {stack stack' : List Pending} {x y : Tree}
    (h : settle 0 stack x = (.group :: stack', y)) (rest : List Token) :
    after stack x (.closing :: rest) = after stack' y rest := by
  simp only [after, h, close]

lemma operator_tokens {op : String} (h : op ∈ operators) :
    plainTokens (" " ++ op ++ " ").toList = some [.operator op] ∧
      beginsClear (" " ++ op ++ " ") = true ∧ endsClear (" " ++ op ++ " ") = true ∧
      3 < operatorLevel op ∧ operatorLevel op ≤ 8 := by
  revert op
  decide +kernel

lemma functionName_tokens {f : String} (h : f ∈ functionNames) :
    plainTokens f.toList = some [.word f] := by
  revert f
  decide +kernel

/-- Operands on both sides of an operator, in parentheses. -/
lemma reads_between {l r : Expr} (hl : Reads l) (hr : Reads r) {s op : String}
    (hs : plainTokens s.toList = some [.operator op]) (hbegin : beginsClear s = true)
    (hend : endsClear s = true) {t : Tree}
    (hsettle : ∀ stack, settle 0 (settle (operatorLevel op) (l.lead ++ .group :: stack) l.core).1
      (.binary (settle (operatorLevel op) (l.lead ++ .group :: stack) l.core).2 op
        (r.treeWith true)) = (.group :: stack, t)) :
    ∃ ts, Legible (.plain "(" :: (l.fragments ++ .plain s :: r.fragments) ++ [.plain ")"]) ts ∧
      ∀ stack rest, operand stack (ts ++ rest) = after stack t rest := by
  obtain ⟨ts, hts, hleft⟩ := hl
  obtain ⟨us, hus, hright⟩ := hr
  refine ⟨_, (hts.between hs hbegin hend hus).enclosed, ?_⟩
  intro stack rest
  simp only [List.cons_append, List.nil_append, List.append_assoc, operand_opening]
  rw [hleft, after, hright, after_lead r _ (.closing rest)]
  -- What the left operand leaves open gets its operand before the operator, or else behind it.
  apply after_closing_group
  rw [← hsettle stack]
  simp [settle]

/-- `AND` and `OR` bind less tightly than all that an operand leaves open. -/
lemma reads_connective {l r : Expr} (hl : Reads l) (hr : Reads r) {s op : String}
    (hs : plainTokens s.toList = some [.operator op]) (hbegin : beginsClear s = true)
    (hend : endsClear s = true) (hlevel : operatorLevel op ≤ 3) :
    ∃ ts, Legible (.plain "(" :: (l.fragments ++ .plain s :: r.fragments) ++ [.plain ")"]) ts ∧
      ∀ stack rest, operand stack (ts ++ rest) =
        after stack (.binary (l.treeWith true) op (r.treeWith true)) rest := by
  apply reads_between hl hr hs hbegin hend
  intro stack
  rw [Expr.settle_lead_of_le hlevel l stack]
  rfl

/-- One operand in parentheses, with more behind it. -/
lemma reads_behind {e : Expr} (he : Reads e) {s : String} {us : List Token}
    (hs : plainTokens s.toList = some us) (hbegin : beginsClear s = true) :
    ∃ ts, Legible (.plain "(" :: e.fragments ++ [.plain s]) ts ∧
      ∀ stack rest, operand stack (ts ++ rest) =
        after (e.lead ++ .group :: stack) e.core (us ++ rest) := by
  obtain ⟨ts, hts, hread⟩ := he
  refine ⟨_, (hts.plain plainTokens_opening (by decide)).before hs hbegin, ?_⟩
  intro stack rest
  simp only [List.cons_append, List.nil_append, List.append_assoc, operand_opening]
  rw [hread]

/-- One operand between plain texts, the first of which opens something. -/
lemma reads_inside {e : Expr} (he : Reads e) {s t : String} {ss us : List Token} {p : Pending}
    {before : List Pending} (hp : p.isOpen = true) (hs : plainTokens s.toList = some ss)
    (hend : endsClear s = true)
    (hopen : ∀ stack rest, operand stack (ss ++ rest) = operand (p :: (before ++ stack)) rest)
    {fs : List Fragment} (hfs : Legible (.plain t :: fs) us) (hbegin : beginsClear t = true)
    (hboundary : ∀ rest, AtBoundary (us ++ rest)) :
    ∃ ts, Legible (.plain s :: e.fragments ++ .plain t :: fs) ts ∧
      ∀ stack rest, operand stack (ts ++ rest) =
        after (p :: (before ++ stack)) (e.treeWith true) (us ++ rest) := by
  obtain ⟨ts, hts, hread⟩ := he.readsAs
  refine ⟨_, (hts.plain hs hend).append hfs ?_, ?_⟩
  · intro f _ g hg
    cases hg
    exact clear_of_beginsClear hbegin f
  · intro stack rest
    rw [List.append_assoc, List.append_assoc, hopen, hread p hp _ _ (hboundary rest)]

lemma closing_legible : Legible [.plain ")"] [.closing] := .single plainTokens_closing

/-- Arguments in parentheses, if there are any. -/
lemma reads_args {args : List Expr} (h : ∀ e ∈ args, Reads e) :
    ∃ ts, Legible (separated ", " (listFragments args)) ts ∧
      ∀ f stack rest, operand (.args f [] :: stack) (ts ++ .closing :: rest) =
        after stack (.call f (args.map (Expr.treeWith true))) rest := by
  cases args with
  | nil => exact ⟨[], .nil, fun f stack rest => rfl⟩
  | cons e es =>
    obtain ⟨ts, first, last, htrees, hts, hread⟩ :=
      reads_items Pending.args (fun _ _ => rfl) (fun _ _ _ _ => rfl)
        (reads_list h Pending.args fun _ _ => rfl) (by simp [listFragments])
    refine ⟨ts, hts, ?_⟩
    intro f stack rest
    rw [hread f [] stack _ (.closing rest), htrees]
    rfl

/-- The values of `IN`. -/
lemma reads_values {es : List Expr} (h : ∀ e ∈ es, Reads e) (hne : es ≠ []) :
    ∃ ts, Legible (separated ", " (listFragments es)) ts ∧
      ∀ x stack rest, operand (.values x [] :: stack) (ts ++ .closing :: rest) =
        after stack (.isIn x (es.map (Expr.treeWith true))) rest := by
  obtain ⟨ts, first, last, htrees, hts, hread⟩ :=
    reads_items Pending.values (fun _ _ => rfl) (fun _ _ _ _ => rfl)
      (reads_list h Pending.values fun _ _ => rfl) (by simpa [listFragments_eq] using hne)
  refine ⟨ts, hts, ?_⟩
  intro x stack rest
  rw [hread x [] stack _ (.closing rest), htrees]
  rfl

lemma reads_isIn {e : Expr} {es : List Expr} (he : Reads e) (hes : ∀ x ∈ es, Reads x)
    (hne : es ≠ []) : Reads (.isIn e es) := by
  obtain ⟨ts, hts, hread⟩ := he
  obtain ⟨us, hus, hvalues⟩ := reads_values hes hne
  have hin : plainTokens " IN (".toList = some [.keyword .IN, .opening] := by decide
  have hclosing : plainTokens "))".toList = some [.closing, .closing] := by decide
  have hopened := hts.plain plainTokens_opening (by decide)
  have hlegible := (hopened.between hin (by decide) (by decide) hus).before hclosing (by decide)
  refine ⟨_, hlegible, ?_⟩
  intro stack rest
  simp only [List.cons_append, List.nil_append, List.append_assoc, operand_opening]
  rw [hread, after, hvalues]
  apply after_closing_group
  rw [Expr.settle_lead_of_lt (by decide) (by decide) e stack
    fun x => .isIn x (es.map (Expr.treeWith true))]
  simp [Expr.lead, Expr.core, Expr.treeWith]

lemma reads_call {f : String} {args : List Expr} (hf : f ∈ functionNames)
    (hargs : ∀ x ∈ args, Reads x) : Reads (.call f args) := by
  obtain ⟨ts, hts, hread⟩ := reads_args hargs
  have hname := functionName_tokens hf
  have hlegible := hts.enclosed.after hname fun g hg => by
    cases hg
    exact clear_of_beginsClear (by decide) _
  refine ⟨_, hlegible, ?_⟩
  intro stack rest
  simp only [List.cons_append, List.nil_append, List.append_assoc, operand_call]
  rw [hread]
  simp [Expr.lead, Expr.core, Expr.treeWith]

lemma reads_cast {e : Expr} {type : String} (he : Reads e) (htype : type ∈ typeNames) :
    Reads (.cast e type) := by
  have hcast : plainTokens "CAST(".toList = some [.keyword .CAST, .opening] := by decide
  have has : plainTokens " AS ".toList = some [.keyword .AS] := by decide
  have hlegible : ∀ us, plainTokens type.toList = some us →
      Legible [.plain " AS ", .plain type, .plain ")"] ([.keyword .AS] ++ (us ++ [.closing])) := by
    intro us hus
    have hname : Legible [.plain type] us := .single hus
    exact (hname.before plainTokens_closing (by decide)).plain has (by decide)
  have htokens : ∀ type ∈ typeNames, plainTokens type.toList = some [.word type] ∨
      type = "DOUBLE PRECISION" := by decide +kernel
  -- The one type of two words is read by a rule of its own.
  rcases htokens type htype with hus | rfl
  · exact reads_inside he (p := .cast) rfl hcast (by decide) (fun _ _ => rfl) (hlegible _ hus)
      (by decide) (fun rest => .type rest type)
  · have hus : plainTokens "DOUBLE PRECISION".toList =
        some [.word "DOUBLE", .word "PRECISION"] := by decide
    exact reads_inside he (p := .cast) rfl hcast (by decide) (fun _ _ => rfl) (hlegible _ hus)
      (by decide) (fun rest => .typeOfTwo rest "DOUBLE" "PRECISION")

lemma reads_case {whens : List (Expr × Expr)} {otherwise : Option Expr}
    (hwhens : ∀ w ∈ whens, Reads w.1 ∧ Reads w.2) (hne : whens ≠ [])
    (hotherwise : ∀ e ∈ otherwise, Reads e) : Reads (.case whens otherwise) := by
  obtain ⟨ts, first, c, x, htrees, hts, hread⟩ := reads_whens hwhens hne
  have hcase : plainTokens "CASE".toList = some [.keyword .CASE] := by decide
  have hend : plainTokens " END".toList = some [.keyword .END] := by decide
  have hbranches : Legible (.plain "CASE" :: whenFragments whens)
      (.keyword .CASE :: .keyword .WHEN :: ts) := by
    refine hts.after hcase ?_
    intro g hg
    cases whens with
    | nil => exact absurd rfl hne
    | cons w whens =>
      cases hg
      exact clear_of_beginsClear (by decide) _
  cases otherwise with
  | none =>
    have hlegible := hbranches.before hend (by decide)
    refine ⟨_, by simpa [Expr.fragments, elseFragments] using hlegible, ?_⟩
    intro stack rest
    have hlast := hread [] stack (.keyword .END :: rest) (.branch _ .END (by decide))
    simp only [List.cons_append, List.nil_append, List.append_assoc, operand_case]
    rw [hlast]
    simp [Expr.lead, Expr.core, Expr.treeWith, htrees, after, settle, finishCase]
  | some e =>
    obtain ⟨us, hus, helse⟩ := (hotherwise e rfl).readsAs
    have hkeyword : plainTokens " ELSE ".toList = some [.keyword .ELSE] := by decide
    have hclosed := hbranches.between hkeyword (by decide) (by decide) hus
    have hlegible := hclosed.before hend (by decide)
    refine ⟨_, hlegible, ?_⟩
    intro stack rest
    have hlast := hread [] stack (.keyword .ELSE :: (us ++ .keyword .END :: rest))
      (.branch _ .ELSE (by decide))
    simp only [List.cons_append, List.nil_append, List.append_assoc, operand_case]
    rw [hlast]
    have hvalue := helse (.otherwise (first ++ [(c, x)])) rfl stack (.keyword .END :: rest)
      (.branch _ .END (by decide))
    simp only [List.nil_append, after, settle, nextBranch, hvalue, finishCase]
    simp [Expr.lead, Expr.core, Expr.treeWith, htrees]

lemma reads_window {f : Expr} {clause : Over Expr} (hf : f.isWindowFunction = true)
    (hfunction : Reads f) (hpartition : ∀ x ∈ clause.partitionBy, Reads x)
    (horder : ∀ t ∈ clause.orderBy, Reads t.target) : Reads (.window f clause) := by
  obtain ⟨partitionBy, orderBy, frame⟩ := clause
  obtain ⟨ts, hts, hread⟩ := hfunction
  obtain ⟨ps, hps, hpartition⟩ := reads_partition hpartition
  obtain ⟨os, hos, horder⟩ := reads_order horder
  obtain ⟨fs, hfs, hframe⟩ := reads_frame frame
  have hover : plainTokens " OVER (".toList = some [.keyword .OVER, .opening] := by decide
  have hclauses := legible_blanks (List.rel_append (List.rel_append hps hos) hfs)
  have hopened := hts.between hover (by decide) (by decide) hclauses
  have hlegible := hopened.before plainTokens_closing (by decide)
  refine ⟨_, hlegible, ?_⟩
  intro stack rest
  have hlead : f.lead = [] ∧ f.core = f.treeWith true := by
    cases f with
    | call _ _ | countAll => exact ⟨rfl, rfl⟩
    | _ => cases hf
  have hwindow := hframe _ _ _ _ _ (horder _ _ _ _ (hpartition (f.treeWith true) stack)) rest
  simp only [List.append_assoc, List.cons_append, List.nil_append, List.flatten_append] at hwindow ⊢
  rw [hread, hlead.1, hlead.2]
  simp only [List.nil_append, after, hwindow]
  simp [Expr.lead, Expr.core, Expr.treeWith]

lemma reads_column (r : ColumnRef) : Reads (.column r) := by
  have hpoint : plainTokens ['.'] = some [.point] := by decide
  have hpath : ∀ (table : TableRef) (name : String), ∃ ts,
      Legible (table.fragments ++ [.plain ".", .identifier name]) ts ∧ ∀ stack rest,
        operand stack (ts ++ rest) = after stack (.column (table.path ++ [name])) rest := by
    intro table name
    have htwo : ∀ a, Legible [.identifier a, .plain ".", .identifier name]
        [.name a, .point, .name name] := fun a =>
      ⟨by simp [Fragment.tokens, hpoint], by simp [Fragment.Clear]⟩
    cases table with
    | stored schema table =>
      cases schema with
      | none => exact ⟨_, htwo table, fun _ _ => rfl⟩
      | some schema =>
        refine ⟨[.name schema, .point, .name table, .point, .name name], ⟨?_, ?_⟩, fun _ _ => rfl⟩
        · simp [TableRef.fragments, Fragment.tokens, hpoint]
        · simp [TableRef.fragments, Fragment.Clear]
    | aliased a => exact ⟨_, htwo a.identifier, fun _ _ => rfl⟩
  cases r with
  | stored table name => exact hpath table name
  | labelled table label => exact hpath table label

/-- The tokens of a number. -/
lemma number_legible (negative : Bool) {s : String} (h : IsNumeral s.toList) :
    Legible [.plain (Literal.signText negative ++ s)]
      ((if negative then [.operator "-"] else []) ++ [.number s]) := by
  apply Legible.single
  cases negative with
  | false =>
    have hnumeral := plainTokens_numeral h
    simpa [Fragment.tokens, Literal.signText] using hnumeral
  | true =>
    have hminus := plainTokens_minus h
    simpa [Fragment.tokens, Literal.signText] using hminus

lemma reads_value {v : Literal} (h : (Expr.value v).isGarbled = false) : Reads (.value v) := by
  cases v with
  | null => exact ⟨_, .single (by decide : plainTokens "NULL".toList = some [.keyword .NULL]),
      fun _ _ => rfl⟩
  | bool b =>
    have htruth : ∀ b, (literalFragment (.bool b)).tokens = some [.truth b] := by decide
    exact ⟨_, .single (htruth b), fun _ _ => rfl⟩
  | int i =>
    have hlegible := number_legible (decide (i.toInt < 0)) (isNumeral_nat i.toInt.natAbs)
    rw [← Literal.intText_eq] at hlegible
    refine ⟨_, hlegible, ?_⟩
    intro stack rest
    by_cases hneg : i.toInt < 0 <;>
      simp [hneg, Expr.lead, Expr.core, hasSign, unsignedTree, operand_minus, operand_number]
  | float x =>
    have hfinite : x.isFinite = true := by simpa [Expr.isGarbled] using h
    have hmagnitude : IsNumeral (Literal.numberLayout.magnitude x).toList :=
      isNumeral_magnitude rfl hfinite
    have hlegible := number_legible x.isNegative hmagnitude
    rw [← Literal.floatText_eq hfinite] at hlegible
    refine ⟨_, hlegible, ?_⟩
    intro stack rest
    by_cases hneg : x.isNegative = true <;>
      simp [hneg, Expr.lead, Expr.core, hasSign, unsignedTree, operand_minus, operand_number]
  | str s => exact ⟨_, .single rfl, fun _ _ => rfl⟩

lemma clear_minus_plain {s : String} (h : s.toList.head?.all (fun d => !isSymbolChar d) = true) :
    (Fragment.plain "(-").Clear (.plain s) := by
  intro d hd
  change (isSymbolChar '-' && isSymbolChar d) = false
  have hsymbol : isSymbolChar d = false := by
    simpa [show s.toList.head? = some d from hd] using h
  rw [hsymbol, Bool.and_false]

lemma clear_minus_numeral {s : String} (h : IsNumeral s.toList) :
    (Fragment.plain "(-").Clear (.plain (Literal.signText false ++ s)) := by
  apply clear_minus_plain
  obtain ⟨d, ds, hs, hd⟩ := h.head
  simp [Literal.signText, hs, isSymbolChar_of_isDigit hd]

/-- The text of an expression begins with a sign only if it is a negative number. -/
lemma clear_minus {e : Expr} (hwords : e.InVocabulary) (hnumbers : e.isGarbled = false)
    (hsign : (Expr.negate e).isGarbled = false) :
    ∀ g ∈ e.fragments.head?, (Fragment.plain "(-").Clear g := by
  have hname : ∀ f ∈ functionNames, f.toList.head?.all (fun d => !isSymbolChar d) = true := by
    decide
  intro g hg
  cases e with
  | call f args =>
    cases hg
    exact clear_minus_plain (hname f (Expr.inVocabulary_call.1 hwords).1)
  | window f clause =>
    obtain ⟨hfunction, hw, _⟩ := Expr.inVocabulary_window.1 hwords
    obtain ⟨partitionBy, orderBy, frame⟩ := clause
    cases f with
    | call f args =>
      cases hg
      exact clear_minus_plain (hname f (Expr.inVocabulary_call.1 hw).1)
    | countAll =>
      cases hg
      exact clear_minus_plain (by decide)
    | _ => cases hfunction
  | column r =>
    obtain ⟨n, rfl⟩ : ∃ n, g = .identifier n := by
      rcases r with ⟨⟨_ | schema, table⟩ | a, name⟩ | ⟨⟨_ | schema, table⟩ | a, name⟩ <;>
        cases hg <;> exact ⟨_, rfl⟩
    trivial
  | value v =>
    cases hg
    cases v with
    | null => exact clear_minus_plain (by decide)
    | bool b => cases b <;> exact clear_minus_plain (by decide)
    | int i =>
      have hpositive : decide (i.toInt < 0) = false := hsign
      rw [literalFragment, Literal.intText_eq, hpositive]
      exact clear_minus_numeral (isNumeral_nat _)
    | float x =>
      have hfinite : x.isFinite = true := by simpa [Expr.isGarbled] using hnumbers
      have hpositive : x.isNegative = false := hsign
      rw [literalFragment, Literal.floatText_eq hfinite, hpositive]
      exact clear_minus_numeral (isNumeral_magnitude rfl hfinite)
    | str s => trivial
  | _ =>
    cases hg
    exact clear_minus_plain (by decide)

lemma reads_negate {e : Expr} (he : Reads e)
    (hclear : ∀ g ∈ e.fragments.head?, (Fragment.plain "(-").Clear g) : Reads (.negate e) := by
  obtain ⟨ts, hts, hread⟩ := he
  have hminus : plainTokens "(-".toList = some [.opening, .operator "-"] := by decide
  refine ⟨_, (hts.after hminus hclear).before plainTokens_closing (by decide), ?_⟩
  intro stack rest
  simp only [List.cons_append, List.nil_append, List.append_assoc, operand_opening, operand_minus]
  rw [hread, after_lead e _ (.closing rest)]
  apply after_closing_group
  simp [settle, Expr.lead, Expr.core, Expr.treeWith]

/-- An expression is read when its parts are. -/
lemma reads_of_parts {e : Expr} (hwords : e.InVocabulary)
    (hnumbers : e.anyNode Expr.isGarbled = false) (hparts : ∀ x ∈ e.parts, Reads x) : Reads e := by
  obtain ⟨hnumber, hnumbersOf⟩ := Expr.of_anyNode_eq_false hnumbers
  cases e with
  | and l r =>
    have hand : plainTokens " AND ".toList = some [.operator "AND"] := by decide
    exact reads_connective (hparts l (by simp [Expr.parts])) (hparts r (by simp [Expr.parts])) hand
      (by decide) (by decide) (by decide)
  | or l r =>
    have hor : plainTokens " OR ".toList = some [.operator "OR"] := by decide
    exact reads_connective (hparts l (by simp [Expr.parts])) (hparts r (by simp [Expr.parts])) hor
      (by decide) (by decide) (by decide)
  | not e =>
    have hnot : plainTokens "NOT (".toList = some [.keyword .NOT, .opening] := by decide
    exact reads_inside (hparts e (by simp [Expr.parts])) (p := .group) rfl hnot (by decide)
      (fun _ _ => rfl) closing_legible (by decide) (fun rest => .closing rest)
  | binary l op r =>
    obtain ⟨hop, _⟩ := Expr.inVocabulary_binary.1 hwords
    obtain ⟨htokens, hbegin, hend, hlow, hhigh⟩ := operator_tokens hop
    exact reads_between (hparts l (by simp [Expr.parts])) (hparts r (by simp [Expr.parts])) htokens
      hbegin hend fun stack => Expr.settle_lead_of_lt hlow hhigh l stack
        fun x => .binary x op (r.treeWith true)
  | isIn e es =>
    obtain ⟨hne, _⟩ := Expr.inVocabulary_isIn.1 hwords
    exact reads_isIn (hparts e (by simp [Expr.parts]))
      (fun x hx => hparts x (by simp [Expr.parts, hx])) hne
  | isNull e =>
    have hnull : plainTokens " IS NULL)".toList =
        some [.keyword .IS, .keyword .NULL, .closing] := by decide
    obtain ⟨ts, hts, hread⟩ := reads_behind (hparts e (by simp [Expr.parts])) hnull (by decide)
    refine ⟨ts, hts, fun stack rest => (hread stack rest).trans ?_⟩
    exact after_closing_group (Expr.settle_lead_of_lt (by decide) (by decide) e stack .isNull) rest
  | isNotNull e =>
    have hnull : plainTokens " IS NOT NULL)".toList =
        some [.keyword .IS, .keyword .NOT, .keyword .NULL, .closing] := by decide
    obtain ⟨ts, hts, hread⟩ := reads_behind (hparts e (by simp [Expr.parts])) hnull (by decide)
    refine ⟨ts, hts, fun stack rest => (hread stack rest).trans ?_⟩
    exact after_closing_group (Expr.settle_lead_of_lt (by decide) (by decide) e stack .isNotNull)
      rest
  | count e =>
    have hcount : plainTokens "COUNT(".toList = some [.word "COUNT", .opening] := by decide
    exact reads_inside (hparts e (by simp [Expr.parts])) (p := .args "COUNT" []) rfl hcount
      (by decide) (fun _ _ => rfl) closing_legible (by decide) (fun rest => .closing rest)
  | countDistinct e =>
    have hcount : plainTokens "COUNT(DISTINCT ".toList =
        some [.word "COUNT", .opening, .keyword .DISTINCT] := by decide
    exact reads_inside (hparts e (by simp [Expr.parts])) (p := .distinct "COUNT") rfl hcount
      (by decide) (fun _ _ => rfl) closing_legible (by decide) (fun rest => .closing rest)
  | countAll => exact ⟨_, .single (by decide : plainTokens "COUNT(*)".toList =
      some [.word "COUNT", .opening, .operator "*", .closing]), fun _ _ => rfl⟩
  | call f args => exact reads_call (Expr.inVocabulary_call.1 hwords).1 hparts
  | cast e type =>
    exact reads_cast (hparts e (by simp [Expr.parts])) (Expr.inVocabulary_cast.1 hwords).1
  | case whens otherwise =>
    refine reads_case ?_ (Expr.inVocabulary_case.1 hwords).1 ?_
    · intro w hw
      constructor
      · exact hparts w.1 (Expr.mem_parts_case.2 (Or.inl ⟨w, hw, Or.inl rfl⟩))
      · exact hparts w.2 (Expr.mem_parts_case.2 (Or.inl ⟨w, hw, Or.inr rfl⟩))
    · exact fun x hx => hparts x (Expr.mem_parts_case.2 (Or.inr hx))
  | window f clause =>
    apply reads_window (Expr.inVocabulary_window.1 hwords).1
    · exact hparts f (Expr.mem_parts_window.2 (Or.inl rfl))
    · exact fun x hx => hparts x (Expr.mem_parts_window.2 (Or.inr (Or.inl hx)))
    · exact fun t ht => hparts t.target (Expr.mem_parts_window.2 (Or.inr (Or.inr ⟨t, ht, rfl⟩)))
  | column r => exact reads_column r
  | value v => exact reads_value hnumber
  | negate e =>
    have hpart : e ∈ (Expr.negate e).parts := by simp [Expr.parts]
    have hinside := (Expr.of_anyNode_eq_false (hnumbersOf e hpart)).1
    exact reads_negate (hparts e hpart)
      (clear_minus (Expr.inVocabulary_negate.1 hwords) hinside hnumber)

theorem reads_expr {e : Expr} (hwords : e.InVocabulary)
    (hnumbers : e.anyNode Expr.isGarbled = false) : Reads e := by
  induction e using Expr.induct_parts with
  | h e ih =>
    apply reads_of_parts hwords hnumbers
    intro x hx
    apply ih x hx
    · exact (Expr.of_anyNode_eq_false hwords).2 x hx
    · exact (Expr.of_anyNode_eq_false hnumbers).2 x hx

/-- The text of an expression is read as the tree in which each `NOT` has captured what it can. -/
theorem parse_inline {e : Expr} (hwords : e.InVocabulary)
    (hnumbers : e.anyNode Expr.isGarbled = false) : parse e.inline = some (e.treeWith true) := by
  obtain ⟨ts, hts, hread⟩ := reads_expr hwords hnumbers
  have htokens : tokenize e.inline = some ts :=
    tokenize_assemble { literalBinds := true } .dollar rfl (expr_spaced hwords) hts
  have hoperand := hread [] []
  rw [List.append_nil] at hoperand
  rw [parse, htokens, Option.bind_some, hoperand, after, Expr.settle_lead]
  rfl

lemma reads_back {e : Expr} (hwords : e.InVocabulary)
    (hnumbers : e.anyNode Expr.isGarbled = false) :
    ∃ t, parse e.inline = some t ∧ (t = e.tree ↔ e.anyNode Expr.capturesOperator = false) :=
  ⟨_, parse_inline hwords hnumbers, e.treeWith_eq_tree_iff⟩

end Expressions

end Sql

/-- What is compiled from columns and constants reads back, and as the tree that it came from
exactly when no operator is captured. -/
theorem compiled_text_reads_back {dialect : Dialect} {env : CompileEnv}
    (hf : env.functions = .builtIn dialect)
    (hscope : ∀ name y, env.scope.lookup name = .ok y → y.InVocabulary)
    (hwindows : Inherited.Context Expr.InVocabulary env.windows) {mode : Mode}
    {es : List ColumnExpr} {xs : List Expr} {found : List LabelledWindow}
    (h : env.compileAll mode es = .ok (xs, found)) :
    ∀ x ∈ xs ++ found.map LabelledWindow.expression, x.anyNode Expr.isGarbled = false →
      ∃ t, parse x.inline = some t ∧ (t = x.tree ↔ x.anyNode Expr.capturesOperator = false) := by
  intro x hx hnumbers
  have hrules := inVocabulary_inherited.rules env mode hf hwindows
  obtain ⟨hxs, hfound⟩ := hrules.compileAll h fun _ _ name _ y hy => hscope name y hy
  have hwords : x.InVocabulary := by
    rcases List.mem_append.1 hx with hx | hx
    · exact hxs x hx
    · obtain ⟨w, hw, rfl⟩ := List.mem_map.1 hx
      exact hfound w hw
  exact reads_back hwords hnumbers

/-- The same holds of every expression in every stage of a query. -/
theorem reachable_text_reads_back {tables : Set TableInfo} {s : QueryState}
    (h : Reachable tables {f | ∃ dialect, f = .builtIn dialect} s) :
    s.last.Everywhere fun q => ∀ x ∈ q.exprs, x.anyNode Expr.isGarbled = false →
      ∃ t, parse x.inline = some t ∧ (t = x.tree ↔ x.anyNode Expr.capturesOperator = false) := by
  intro q hq x hx hnumbers
  exact reads_back (inVocabulary_inherited.reachable h q hq x hx) hnumbers

/-- The people, read through a subquery. -/
def peopleEnv : CompileEnv where
  functions := .builtIn .postgres
  scope := .ofSubquery (people .postgres).last ⟨"t", 0⟩

/-- A negated equation. -/
def negatedEquation : ColumnExpr :=
  .call .not [.call .equal [.column "x", .literal (.bool true)] []] []

/-- An equation with a negation. -/
def equationOfNegation : ColumnExpr :=
  .call .equal [.call .not [.column "x"] [], .literal (.bool true)] []

theorem negatedEquation_reads_back : ∃ x y,
    peopleEnv.compileAll .scalar [negatedEquation, equationOfNegation] = .ok ([x, y], []) ∧
      parse x.inline = some x.tree ∧ ∃ t, parse y.inline = some t ∧ t ≠ y.tree := by
  have hcompile : peopleEnv.compileAll .scalar [negatedEquation, equationOfNegation] =
      .ok ([.not (.binary (.labelled ⟨"t", 0⟩ "x") "=" (.value (.bool true))),
        .binary (.not (.labelled ⟨"t", 0⟩ "x")) "=" (.value (.bool true))], []) := rfl
  have hread := compiled_text_reads_back rfl
    (fun _ _ hy => inVocabulary_inherited.lookup_ofSubquery hy) Inherited.context_empty hcompile
  refine ⟨_, _, hcompile, ?_, ?_⟩
  · obtain ⟨t, ht, hiff⟩ := hread _ List.mem_cons_self rfl
    rw [ht, hiff.2 rfl]
  · obtain ⟨t, ht, hiff⟩ := hread _ (List.mem_cons_of_mem _ List.mem_cons_self) rfl
    exact ⟨t, ht, fun htree => absurd (hiff.1 htree) (by decide)⟩

/-- The negation of a column captures the equation behind it. Two minus signs have no tokens, so a
negative number that is negated again is not read at all. -/
theorem equationOfNegation_captured : ∃ x y,
    peopleEnv.compileAll .scalar
      [equationOfNegation, .call .negate [.literal (.int (-1))] []] = .ok ([x, y], []) ∧
      x.inline = "(NOT (\"t_0\".\"x\") = true)" ∧
      x.tree = .binary (.unary .not (.column ["t_0", "x"])) "=" (.truth true) ∧
      parse x.inline = some (.unary .not (.binary (.column ["t_0", "x"]) "=" (.truth true))) ∧
      y.inline = "(--1)" ∧ parse y.inline = none := by
  refine ⟨.binary (.not (.labelled ⟨"t", 0⟩ "x")) "=" (.value (.bool true)),
    .negate (.value (.int (-1))), rfl, by decide +kernel, rfl, ?_, by decide +kernel, ?_⟩
  · exact parse_inline (by rfl) (by rfl)
  · have htokens : tokenize "(--1)" = none := by decide +kernel
    have htext : (Expr.negate (.value (.int (-1)))).inline = "(--1)" := by decide +kernel
    rw [htext, parse, htokens, Option.bind_none]

end PipelineSql