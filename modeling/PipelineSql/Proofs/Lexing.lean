import PipelineSql.Proofs.Splitting

/-!
# The tokens of SQL text

Between the quoted parts of a statement, tokens are the longest runs of characters that belong
together. Text that was put together from fragments has the tokens of the fragments, as long as no
run goes on from one fragment into the next.
-/

namespace PipelineSql.Sql

section Tokens

/-- The reserved words of expressions. -/
inductive Keyword where
  | NOT | IS | NULL | IN | CASE | WHEN | THEN | ELSE | END | CAST | AS | DISTINCT
  | OVER | PARTITION | ORDER | BY | ROWS | BETWEEN | ASC | DESC
deriving DecidableEq

inductive Token where
  /-- A name in double quotes. -/
  | name (s : String)
  /-- A text in single quotes. -/
  | text (s : String)
  | number (s : String)
  /-- A truth value. -/
  | truth (value : Bool)
  | operator (s : String)
  | opening
  | closing
  | comma
  | point
  | keyword (k : Keyword)
  /-- Any other word: a function, a type or an end of a frame. -/
  | word (s : String)
deriving DecidableEq

/-- The runs of characters with a meaning of their own. A blank stands for no token. -/
def spellings : List (String × List Token) :=
  [(" ", []), ("(", [.opening]), (")", [.closing]), (",", [.comma]), (".", [.point]),
    ("true", [.truth true]), ("false", [.truth false]), ("AND", [.operator "AND"]),
    ("OR", [.operator "OR"]), ("NOT", [.keyword .NOT]), ("IS", [.keyword .IS]),
    ("NULL", [.keyword .NULL]), ("IN", [.keyword .IN]), ("CASE", [.keyword .CASE]),
    ("WHEN", [.keyword .WHEN]), ("THEN", [.keyword .THEN]), ("ELSE", [.keyword .ELSE]),
    ("END", [.keyword .END]), ("CAST", [.keyword .CAST]), ("AS", [.keyword .AS]),
    ("DISTINCT", [.keyword .DISTINCT]), ("OVER", [.keyword .OVER]),
    ("PARTITION", [.keyword .PARTITION]), ("ORDER", [.keyword .ORDER]), ("BY", [.keyword .BY]),
    ("ROWS", [.keyword .ROWS]), ("BETWEEN", [.keyword .BETWEEN]), ("ASC", [.keyword .ASC]),
    ("DESC", [.keyword .DESC])] ++ operators.map fun s => (s, [.operator s])

def isWordChar (c : Char) : Bool := c.isAlphanum || c = '_' || c = '.'

def isSymbolChar (c : Char) : Bool :=
  c = '=' || c = '<' || c = '>' || c = '+' || c = '-' || c = '*' || c = '/' || c = '%' || c = '|'

/-- Whether a run of characters goes on with one more. A number takes a sign behind the mark of its
exponent. -/
def joins (run : List Char) (c : Char) : Bool :=
  match run with
  | [] => false
  | first :: _ =>
    if first.isDigit then isWordChar c || (c = '-' || c = '+') && run.getLast? = some 'e'
    else if isWordChar first then isWordChar c
    else isSymbolChar first && isSymbolChar c

/-- Cuts a text into runs, the first of which has begun already. -/
def runs : List Char → List Char → List (List Char)
  | run, [] => [run]
  | run, c :: cs => if joins run c then runs (run ++ [c]) cs else run :: runs [c] cs

/-- The tokens of a run, at most one. Two minus signs open a comment and are no token. -/
def runTokens : List Char → Option (List Token)
  | [] => some []
  | c :: cs =>
    if c.isDigit then some [.number (String.ofList (c :: cs))]
    else
      match spellings.lookup (String.ofList (c :: cs)) with
      | some ts => some ts
      | none => if isWordChar c then some [.word (String.ofList (c :: cs))] else none

/-- The tokens of some runs. -/
def tokensOfRuns : List (List Char) → Option (List Token)
  | [] => some []
  | run :: rest => do
    let ts ← runTokens run
    let us ← tokensOfRuns rest
    return ts ++ us

/-- The tokens of text without quotes. -/
def plainTokens (cs : List Char) : Option (List Token) := tokensOfRuns (runs [] cs)

/-- The token of a quoted part. -/
def QuotedPart.token (part : QuotedPart) : Token :=
  if part.quote = '"' then .name (String.ofList part.content)
  else .text (String.ofList part.content)

/-- The tokens of quoted parts and of the text behind each of them. -/
def partTokens : List (QuotedPart × List Char) → Option (List Token)
  | [] => some []
  | (part, text) :: rest => do
    let ts ← plainTokens text
    let us ← partTokens rest
    return part.token :: ts ++ us

/-- The tokens of a split text. -/
def Split.tokens (s : Split) : Option (List Token) := do
  let ts ← plainTokens s.text
  let us ← partTokens s.parts
  return ts ++ us

/-- The tokens of SQL text. -/
def tokenize (s : String) : Option (List Token) := (split s).bind Split.tokens

end Tokens

section Runs

lemma tokensOfRuns_cons {run : List Char} {rest : List (List Char)} {ts : List Token} :
    tokensOfRuns (run :: rest) = some ts ↔
      ∃ us vs, runTokens run = some us ∧ tokensOfRuns rest = some vs ∧ ts = us ++ vs := by
  simp only [tokensOfRuns, Option.bind_eq_bind, Option.bind_eq_some_iff, Option.pure_def,
    Option.some.injEq]
  constructor
  · rintro ⟨us, hus, vs, hvs, rfl⟩
    exact ⟨us, vs, hus, hvs, rfl⟩
  · rintro ⟨us, vs, hus, hvs, rfl⟩
    exact ⟨us, hus, vs, hvs, rfl⟩

lemma runs_nil_cons (c : Char) (cs : List Char) : runs [] (c :: cs) = [] :: runs [c] cs := rfl

/-- The run in which a text ends. -/
def lastRun (run : List Char) : List Char → List Char
  | [] => run
  | c :: cs => if joins run c then lastRun (run ++ [c]) cs else lastRun [c] cs

/-- Texts have their tokens one after the other when no run goes on from one into the next. -/
lemma tokensOfRuns_append {t : List Char} {us : List Token}
    (ht : tokensOfRuns (runs [] t) = some us) (s : List Char) :
    ∀ {run : List Char} {ts : List Token}, tokensOfRuns (runs run s) = some ts →
      (∀ d ∈ t.head?, joins (lastRun run s) d = false) →
      tokensOfRuns (runs run (s ++ t)) = some (ts ++ us) := by
  -- The run that has begun changes along the first text, up to the one in which it ends.
  induction s with
  | nil =>
    intro run ts hs hapart
    cases t with
    | nil =>
      obtain ⟨rfl⟩ : [] = us := by simpa [runs, tokensOfRuns, runTokens] using ht
      simpa using hs
    | cons d t =>
      have hd : joins run d = false := hapart d rfl
      have htail : tokensOfRuns (runs [d] t) = some us := by
        simpa [runs_nil_cons, tokensOfRuns, runTokens] using ht
      obtain ⟨vs, ws, hrun, hnil, rfl⟩ := tokensOfRuns_cons.1 hs
      obtain ⟨rfl⟩ : [] = ws := by simpa [tokensOfRuns] using hnil
      rw [List.nil_append, runs, if_neg (by simp [hd]), List.append_nil]
      exact tokensOfRuns_cons.2 ⟨vs, us, hrun, htail, rfl⟩
  | cons c s ih =>
    intro run ts hs hapart
    rw [List.cons_append, runs]
    rw [runs] at hs
    rw [lastRun] at hapart
    by_cases hc : joins run c = true
    · rw [if_pos hc] at hs hapart ⊢
      exact ih hs hapart
    · rw [if_neg hc] at hs hapart ⊢
      obtain ⟨vs, ws, hrun, hrest, rfl⟩ := tokensOfRuns_cons.1 hs
      rw [tokensOfRuns_cons.2 ⟨vs, _, hrun, ih hrest hapart, rfl⟩, List.append_assoc]

/-- A character that goes on with no run, and with which no run goes on. -/
def isBreak (c : Char) : Bool := !isWordChar c && !isSymbolChar c

lemma joins_of_isBreak {d : Char} (h : isBreak d = true) (run : List Char) :
    joins run d = false := by
  simp only [isBreak, Bool.and_eq_true, Bool.not_eq_true'] at h
  have hsign : d ≠ '-' ∧ d ≠ '+' := by
    constructor <;> rintro rfl <;> exact absurd h.2 (by decide)
  cases run with
  | nil => rfl
  | cons c cs => simp [joins, h, hsign]

lemma joins_isBreak {c : Char} (h : isBreak c = true) (cs : List Char) (d : Char) :
    joins (c :: cs) d = false := by
  simp only [isBreak, Bool.and_eq_true, Bool.not_eq_true'] at h
  have hdigit : c.isDigit = false := by
    have hword := h.1
    simp only [isWordChar, Char.isAlphanum, Bool.or_eq_false_iff] at hword
    exact hword.1.1.2
  simp [joins, h, hdigit]

lemma runs_numeral {cs : List Char} (h : IsNumeral cs) (rest : List Char) :
    runs [] (cs ++ rest) = [] :: runs cs rest := by
  induction h generalizing rest with
  | digit hd => rfl
  | @char cs c hcs hc ih =>
    obtain ⟨d, ds, rfl, hd⟩ := hcs.head
    have hword : isWordChar c = true := by
      simp only [isNumeralChar, Bool.or_eq_true, decide_eq_true_eq] at hc
      rcases hc with (hdigit | rfl) | rfl
      · simp [isWordChar, Char.isAlphanum, hdigit]
      · decide
      · decide
    rw [List.append_assoc, ih, List.singleton_append, runs]
    simp [joins, hd, hword]
  | @sign cs hcs ih =>
    obtain ⟨d, ds, heq, hd⟩ := hcs.head
    rw [List.append_assoc, ih, List.singleton_append, runs]
    have hlast : (cs ++ ['e']).getLast? = some 'e' := by simp
    rw [heq] at hlast ⊢
    simp [joins, hd, hlast]

lemma runTokens_numeral {cs : List Char} (h : IsNumeral cs) :
    runTokens cs = some [.number (String.ofList cs)] := by
  obtain ⟨d, ds, rfl, hd⟩ := h.head
  simp [runTokens, hd]

lemma plainTokens_numeral {cs : List Char} (h : IsNumeral cs) :
    plainTokens cs = some [.number (String.ofList cs)] := by
  have hruns := runs_numeral h []
  rw [List.append_nil] at hruns
  simp [plainTokens, hruns, runs, tokensOfRuns, runTokens_numeral h, runTokens.eq_1]

lemma isSymbolChar_of_isDigit {c : Char} (h : c.isDigit = true) : isSymbolChar c = false := by
  by_contra hsymbol
  simp only [isSymbolChar, Bool.not_eq_false, Bool.or_eq_true, decide_eq_true_eq] at hsymbol
  rcases hsymbol with (((((((rfl | rfl) | rfl) | rfl) | rfl) | rfl) | rfl) | rfl) | rfl <;> cases h

lemma plainTokens_minus {cs : List Char} (h : IsNumeral cs) :
    plainTokens ('-' :: cs) = some [.operator "-", .number (String.ofList cs)] := by
  have hminus : tokensOfRuns (runs [] ['-']) = some [.operator "-"] := by decide
  refine tokensOfRuns_append (plainTokens_numeral h) ['-'] hminus ?_
  obtain ⟨d, ds, rfl, hd⟩ := h.head
  intro c hc
  cases hc
  change (isSymbolChar '-' && isSymbolChar d) = false
  rw [isSymbolChar_of_isDigit hd, Bool.and_false]

end Runs

section Fragments

/-- The tokens of a fragment, its text in place. -/
def Fragment.tokens : Fragment → Option (List Token)
  | .plain s => plainTokens s.toList
  | .identifier name => some [.name name]
  | .quoted s => some [.text s]
  | .param s => some [.text s]

/-- No run of characters goes on from one fragment into the next. -/
def Fragment.Clear : Fragment → Fragment → Prop
  | .plain s, .plain t => ∀ d ∈ t.toList.head?, joins (lastRun [] s.toList) d = false
  | _, _ => True

/-- Fragments whose text has the tokens of the fragments. -/
structure Legible (fs : List Fragment) (ts : List Token) : Prop where
  tokens : (fs.mapM Fragment.tokens).map List.flatten = some ts
  clear : fs.IsChain Fragment.Clear

namespace Legible

lemma nil : Legible [] [] := ⟨rfl, .nil⟩

lemma single {f : Fragment} {ts : List Token} (h : f.tokens = some ts) : Legible [f] ts :=
  ⟨by simp [h], .singleton _⟩

lemma cons_cases {f : Fragment} {fs : List Fragment} {ts : List Token} (h : Legible (f :: fs) ts) :
    ∃ us vs, f.tokens = some us ∧ Legible fs vs ∧ ts = us ++ vs := by
  obtain ⟨as, has, rfl⟩ := Option.map_eq_some_iff.1 h.tokens
  rw [List.mapM_cons] at has
  obtain ⟨us, hus, hrest⟩ := Option.bind_eq_some_iff.1 has
  obtain ⟨bs, hbs, hpure⟩ := Option.bind_eq_some_iff.1 hrest
  cases hpure
  exact ⟨us, bs.flatten, hus, ⟨by rw [hbs]; rfl, h.clear.tail⟩, rfl⟩

lemma append {fs gs : List Fragment} {ts us : List Token} (hfs : Legible fs ts)
    (hgs : Legible gs us) (hclear : ∀ f ∈ fs.getLast?, ∀ g ∈ gs.head?, f.Clear g) :
    Legible (fs ++ gs) (ts ++ us) := by
  refine ⟨?_, List.isChain_append.2 ⟨hfs.clear, hgs.clear, hclear⟩⟩
  obtain ⟨as, has, rfl⟩ := Option.map_eq_some_iff.1 hfs.tokens
  obtain ⟨bs, hbs, rfl⟩ := Option.map_eq_some_iff.1 hgs.tokens
  simp [List.mapM_append, has, hbs]

end Legible

/-- A text with which no run of an earlier fragment goes on. -/
def beginsClear (s : String) : Bool := s.toList.head?.all isBreak

/-- A text that does not end in the middle of a run. -/
def endsClear (s : String) : Bool := (lastRun [] s.toList).head?.all isBreak

lemma clear_of_beginsClear {t : String} (h : beginsClear t = true) (f : Fragment) :
    f.Clear (.plain t) := by
  cases f with
  | plain s =>
    intro d hd
    apply joins_of_isBreak
    simpa [beginsClear, show t.toList.head? = some d from hd] using h
  | identifier _ | quoted _ | param _ => trivial

lemma clear_of_endsClear {s : String} (h : endsClear s = true) (g : Fragment) :
    (Fragment.plain s).Clear g := by
  cases g with
  | plain t =>
    intro d _
    cases hrun : lastRun [] s.toList with
    | nil => rfl
    | cons c cs =>
      apply joins_isBreak
      simpa [endsClear, hrun] using h
  | identifier _ | quoted _ | param _ => trivial

namespace Legible

variable {fs gs : List Fragment} {ts us vs : List Token} {s : String}

/-- Plain text before other fragments. -/
lemma after (hgs : Legible gs vs) (hs : plainTokens s.toList = some us)
    (hclear : ∀ g ∈ gs.head?, (Fragment.plain s).Clear g) :
    Legible (.plain s :: gs) (us ++ vs) := by
  have htext : Legible [.plain s] us := single hs
  refine htext.append hgs ?_
  intro f hf g hg
  cases hf
  exact hclear g hg

lemma plain (hgs : Legible gs vs) (hs : plainTokens s.toList = some us)
    (hend : endsClear s = true) : Legible (.plain s :: gs) (us ++ vs) :=
  hgs.after hs fun g _ => clear_of_endsClear hend g

/-- Plain text behind other fragments. -/
lemma before (hfs : Legible fs ts) (hs : plainTokens s.toList = some us)
    (hbegin : beginsClear s = true) : Legible (fs ++ [.plain s]) (ts ++ us) := by
  have htext : Legible [.plain s] us := single hs
  refine hfs.append htext ?_
  intro f _ g hg
  cases hg
  exact clear_of_beginsClear hbegin f

/-- Plain text between other fragments. -/
lemma between (hfs : Legible fs ts) (hs : plainTokens s.toList = some us)
    (hbegin : beginsClear s = true) (hend : endsClear s = true) (hgs : Legible gs vs) :
    Legible (fs ++ .plain s :: gs) (ts ++ (us ++ vs)) := by
  refine hfs.append (hgs.plain hs hend) ?_
  intro f _ g hg
  cases hg
  exact clear_of_beginsClear hbegin f

end Legible

variable (options : RenderOptions) (style : ParamStyle)

lemma split_tokens_eq {s : Split} {ts : List Token} : s.tokens = some ts ↔
    ∃ us vs, plainTokens s.text = some us ∧ partTokens s.parts = some vs ∧ ts = us ++ vs := by
  simp only [Split.tokens, Option.bind_eq_bind, Option.bind_eq_some_iff, Option.pure_def,
    Option.some.injEq]
  constructor
  · rintro ⟨us, hus, vs, hvs, rfl⟩
    exact ⟨us, vs, hus, hvs, rfl⟩
  · rintro ⟨us, vs, hus, hvs, rfl⟩
    exact ⟨us, hus, vs, hvs, rfl⟩

lemma partTokens_cons {text : List Char} {rest : List (QuotedPart × List Char)}
    {ts us : List Token} (hts : plainTokens text = some ts) (hus : partTokens rest = some us)
    (part : QuotedPart) : partTokens ((part, text) :: rest) = some (part.token :: (ts ++ us)) := by
  simp [partTokens, hts, hus]

/-- The text before the first quoted part begins as the first fragment does. -/
lemma head_text_ofFragments (hbinds : options.literalBinds = true) {f : Fragment}
    {fs : List Fragment} (h : Spaced (f :: fs)) (n : Nat) :
    (Split.ofFragments options style n (f :: fs)).text.head? =
      match f with
      | .plain s => s.toList.head?
      | _ => none := by
  cases f with
  | plain s =>
    obtain ⟨hne, _⟩ := isPlainText_iff.1 (h.texts s (by simp))
    obtain ⟨c, cs, hcs⟩ := List.exists_cons_of_ne_nil hne
    simp [Split.ofFragments, Fragment.part?, Fragment.bare, Split.afterText, hcs]
  | identifier name | quoted t | param t =>
    simp [Split.ofFragments, Fragment.part?, Split.afterPart, hbinds]

/-- The tokens of a text are those of its fragments. -/
lemma tokens_ofFragments (hbinds : options.literalBinds = true) {fs : List Fragment}
    {ts : List Token} (hspaced : Spaced fs) (h : Legible fs ts) (n : Nat) :
    (Split.ofFragments options style n fs).tokens = some ts := by
  induction fs generalizing ts n with
  | nil =>
    have hts : ts = [] := by simpa [eq_comm] using h.tokens
    rw [hts]
    rfl
  | cons f fs ih =>
    obtain ⟨us, vs, hus, hvs, rfl⟩ := h.cons_cases
    obtain ⟨ws, xs, hws, hxs, rfl⟩ :=
      split_tokens_eq.1 (ih hspaced.tail hvs (n + f.placeholders options))
    rw [Split.ofFragments, split_tokens_eq]
    cases f with
    | plain s =>
      refine ⟨us ++ ws, xs, ?_, hxs, by rw [List.append_assoc]⟩
      apply tokensOfRuns_append hws s.toList hus
      cases fs with
      | nil => simp [Split.ofFragments]
      | cons g gs =>
        rw [head_text_ofFragments options style hbinds hspaced.tail]
        have hclear := (List.isChain_cons.1 h.clear).1 g rfl
        cases g with
        | plain t => exact hclear
        | identifier _ | quoted _ | param _ => simp
    | identifier name | quoted t | param t =>
      cases hus
      simp only [Fragment.part?, hbinds, if_true]
      refine ⟨[], _, rfl, partTokens_cons hws hxs _, ?_⟩
      simp [QuotedPart.token]

/-- The tokens of an assembled text are those of its fragments. -/
lemma tokenize_assemble (hbinds : options.literalBinds = true) {fs : List Fragment}
    {ts : List Token} (hspaced : Spaced fs) (h : Legible fs ts) :
    tokenize (SqlText.assemble options style fs).sql = some ts := by
  rw [tokenize, split_assemble options style hspaced, Option.bind_some,
    tokens_ofFragments options style hbinds hspaced h]

end Fragments

end PipelineSql.Sql
