import PipelineSql.Proofs.ExpressionTrees

/-!
# Reading operands, lists and windows

The text of an expression leaves at most one operator open behind it, a `NOT` or a sign. At the end
of an item, a branch or a clause that operator has its operand, so that lists of items, branches
of a `CASE` and the clauses of a window are read one after the other.
-/

namespace PipelineSql.Sql

section Operands

namespace Expr

/-- The operator that is still open behind the text of an expression. -/
def lead : Expr → List Pending
  | .not _ => [.unary .not]
  | .value v => if hasSign v then [.unary .minus] else []
  | _ => []

/-- The operand of that operator, or else the whole tree. -/
def core : Expr → Tree
  | .not e => e.treeWith true
  | .value v => unsignedTree v
  | e => e.treeWith true

attribute [local simp] lead core treeWith settle

/-- Where nothing binds more tightly, the open operator gets its operand. -/
lemma settle_lead (e : Expr) (stack : List Pending) :
    settle 0 (e.lead ++ stack) e.core = settle 0 stack (e.treeWith true) := by
  cases e with
  | value v => by_cases h : hasSign v = true <;> simp [literalTree, h]
  | _ => rfl

/-- Operators that bind less tightly than `NOT` do not come between it and its operand. -/
lemma settle_lead_of_le {level : Nat} (hlevel : level ≤ 3) (e : Expr) (stack : List Pending) :
    settle level (e.lead ++ .group :: stack) e.core = (.group :: stack, e.treeWith true) := by
  cases e with
  | not e => simp [UnaryOperator.level, hlevel]
  | value v =>
    have hminus : level ≤ 8 := by omega
    by_cases h : hasSign v = true <;> simp [literalTree, h, UnaryOperator.level, hminus]
  | _ => rfl

/-- Operators that bind more tightly than `NOT` do. -/
lemma settle_lead_of_lt {level : Nat} (hlow : 3 < level) (hhigh : level ≤ 8) (e : Expr)
    (stack : List Pending) (wrap : Tree → Tree) :
    settle 0 (settle level (e.lead ++ .group :: stack) e.core).1
        (wrap (settle level (e.lead ++ .group :: stack) e.core).2) =
      (.group :: stack, e.around true (e.treeWith true) wrap) := by
  cases e with
  | not e =>
    have hnot : ¬level ≤ 3 := by omega
    simp [UnaryOperator.level, hnot, around, isNot, Tree.wrapInside]
  | value v =>
    by_cases h : hasSign v = true <;>
      simp [literalTree, h, UnaryOperator.level, hhigh, around, isNot]
  | _ => rfl

end Expr

/-- The text of an expression is read as the expression, with what may still be open. -/
def Reads (e : Expr) : Prop :=
  ∃ ts, Legible e.fragments ts ∧
    ∀ stack rest, operand stack (ts ++ rest) = after (e.lead ++ stack) e.core rest

/-- Fragments that are read as a tree up to a boundary. -/
def ReadsAs (accepts : Pending → Prop) (fs : List Fragment) (t : Tree) : Prop :=
  ∃ ts, Legible fs ts ∧ ∀ p, accepts p → ∀ stack rest, AtBoundary rest →
    operand (p :: stack) (ts ++ rest) = after (p :: stack) t rest

/-- At a boundary, the operator of an expression has its operand. -/
lemma after_lead (e : Expr) (stack : List Pending) {rest : List Token} (h : AtBoundary rest) :
    after (e.lead ++ stack) e.core rest = after stack (e.treeWith true) rest := by
  rw [h.after_settle, h.after_settle stack, Expr.settle_lead]

lemma Reads.readsAs {e : Expr} (h : Reads e) :
    ReadsAs (fun p => p.isOpen = true) e.fragments (e.treeWith true) := by
  obtain ⟨ts, hts, hread⟩ := h
  refine ⟨ts, hts, ?_⟩
  intro p hp stack rest hrest
  rw [hread, after_lead e _ hrest]

end Operands

section Lists

/-- Items between commas are read into the list that is open around them. -/
lemma reads_items {α : Type} (item : α → List Tree → Pending)
    (hopen : ∀ a done, (item a done).isOpen = true)
    (hnext : ∀ a done stack x,
      nextItem (item a done :: stack, x) = some (item a (done ++ [x]) :: stack))
    {items : List (List Fragment)} {trees : List Tree}
    (h : List.Forall₂ (ReadsAs fun p => ∃ a done, p = item a done) items trees)
    (hne : items ≠ []) :
    ∃ ts first last, trees = first ++ [last] ∧ Legible (separated ", " items) ts ∧
      ∀ a done stack rest, AtBoundary rest → operand (item a done :: stack) (ts ++ rest) =
        after (item a (done ++ first) :: stack) last rest := by
  -- A comma puts an item among those that are done. The last one is left to what comes behind it.
  induction h with
  | nil => exact absurd rfl hne
  | @cons fs t items trees hitem hitems ih =>
    obtain ⟨ts, hts, hread⟩ := hitem
    cases hitems with
    | nil =>
      refine ⟨ts, [], t, rfl, hts, ?_⟩
      intro a done stack rest hrest
      rw [hread _ ⟨a, done, rfl⟩ stack rest hrest, List.append_nil]
    | @cons gs u items trees hnextItem hrestItems =>
      obtain ⟨us, first, last, htrees, hus, hreads⟩ := ih (by simp)
      have hcomma : plainTokens ", ".toList = some [.comma] := by decide
      refine ⟨ts ++ ([.comma] ++ us), t :: first, last, by rw [htrees]; rfl,
        hts.between hcomma (by decide) (by decide) hus, ?_⟩
      intro a done stack rest hrest
      have hcommaRead : after (item a done :: stack) t (.comma :: (us ++ rest)) =
          operand (item a (done ++ [t]) :: stack) (us ++ rest) := by
        simp only [after, settle_of_isOpen (hopen a done), hnext]
      have hrestRead := hreads a (done ++ [t]) stack rest hrest
      rw [List.append_assoc] at hrestRead ⊢
      exact (hread _ ⟨a, done, rfl⟩ stack _ (.comma _)).trans (hcommaRead.trans hrestRead)

lemma reads_list {es : List Expr} (h : ∀ e ∈ es, Reads e) {α : Type}
    (item : α → List Tree → Pending) (hopen : ∀ a done, (item a done).isOpen = true) :
    List.Forall₂ (ReadsAs fun p => ∃ a done, p = item a done) (listFragments es)
      (es.map (Expr.treeWith true)) := by
  rw [listFragments_eq]
  induction es with
  | nil => exact .nil
  | cons e es ih =>
    refine .cons ?_ (ih fun x hx => h x (by simp [hx]))
    obtain ⟨ts, hts, hread⟩ := (h e (by simp)).readsAs
    exact ⟨ts, hts, fun p ⟨a, done, hp⟩ => hread p (hp ▸ hopen a done)⟩

/-- A list of terms that is open in a window. -/
def orderItem (window : Tree × List Tree) (done : List Tree) : Pending :=
  .order window.1 window.2 done

lemma reads_ordered {terms : List (Ordered Expr)} (h : ∀ t ∈ terms, Reads t.target) :
    List.Forall₂ (ReadsAs fun p => ∃ a done, p = orderItem a done) (orderFragments terms)
      (terms.map fun t => .directed (t.target.treeWith true) t.direction) := by
  rw [orderFragments_eq]
  induction terms with
  | nil => exact .nil
  | cons t terms ih =>
    refine .cons ?_ (ih fun x hx => h x (by simp [hx]))
    obtain ⟨ts, hts, hread⟩ := (h t (by simp)).readsAs
    obtain ⟨target, direction⟩ := t
    have hkeyword : plainTokens direction.keyword.toList = some [direction.token] := by
      cases direction <;> decide
    have hbegin : beginsClear direction.keyword = true := by
      cases direction <;> decide
    refine ⟨ts ++ [direction.token], hts.before hkeyword hbegin, ?_⟩
    rintro p ⟨a, done, rfl⟩ stack rest hrest
    have hdirected : after (orderItem a done :: stack) (target.treeWith true)
        (direction.token :: rest) =
        after (orderItem a done :: stack) (.directed (target.treeWith true) direction) rest := by
      cases direction <;> rfl
    rw [List.append_assoc]
    exact (hread _ rfl stack _ (.direction rest direction)).trans hdirected

/-- Branches are read into the `CASE` that is open around them. -/
lemma reads_whens {whens : List (Expr × Expr)} (h : ∀ w ∈ whens, Reads w.1 ∧ Reads w.2)
    (hne : whens ≠ []) :
    ∃ ts first c x, whens.map (fun w => (w.1.treeWith true, w.2.treeWith true)) =
        first ++ [(c, x)] ∧
      Legible (whenFragments whens) (.keyword .WHEN :: ts) ∧
      ∀ done stack rest, AtBoundary rest → operand (.when done :: stack) (ts ++ rest) =
        after (.branch (done ++ first) c :: stack) x rest := by
  induction whens with
  | nil => exact absurd rfl hne
  | cons w whens ih =>
    obtain ⟨c, x⟩ := w
    obtain ⟨⟨ts, hts, hc⟩, ⟨us, hus, hx⟩⟩ :=
      (h (c, x) (by simp)).imp (fun h => h.readsAs) (fun h => h.readsAs)
    have hwhen : plainTokens " WHEN ".toList = some [.keyword .WHEN] := by decide
    have hthen : plainTokens " THEN ".toList = some [.keyword .THEN] := by decide
    have hlegible : Legible (.plain " WHEN " :: c.fragments ++ .plain " THEN " :: x.fragments)
        (.keyword .WHEN :: (ts ++ (.keyword .THEN :: us))) :=
      (hts.between hthen (by decide) (by decide) hus).plain hwhen (by decide)
    have hread : ∀ done stack rest, AtBoundary rest →
        operand (.when done :: stack) (ts ++ (.keyword .THEN :: us) ++ rest) =
          after (.branch done (c.treeWith true) :: stack) (x.treeWith true) rest := by
      intro done stack rest hrest
      rw [List.append_assoc]
      have hcondition := hc (.when done) rfl stack (.keyword .THEN :: (us ++ rest))
        (.branch _ .THEN (by decide))
      exact hcondition.trans (hx (.branch done (c.treeWith true)) rfl stack rest hrest)
    cases whens with
    | nil =>
      refine ⟨_, [], _, _, rfl, by simpa [whenFragments] using hlegible, ?_⟩
      intro done stack rest hrest
      rw [hread done stack rest hrest, List.append_nil]
    | cons v whens =>
      obtain ⟨vs, first, d, y, htrees, hvs, hreads⟩ := ih (fun u hu => h u (by simp [hu])) (by simp)
      refine ⟨ts ++ (.keyword .THEN :: us) ++ (.keyword .WHEN :: vs),
        (c.treeWith true, x.treeWith true) :: first, d, y, ?_, ?_, ?_⟩
      · rw [List.map_cons, htrees]
        rfl
      · refine hlegible.append hvs ?_
        intro f _ g hg
        have hplain : g = .plain " WHEN " := by
          cases v
          cases hg
          rfl
        rw [hplain]
        exact clear_of_beginsClear (by decide) f
      · intro done stack rest hrest
        have hfirst := hread done stack (.keyword .WHEN :: (vs ++ rest))
          (.branch _ .WHEN (by decide))
        have hnext := hreads (done ++ [(c.treeWith true, x.treeWith true)]) stack rest hrest
        rw [List.append_assoc] at hnext ⊢
        exact hfirst.trans hnext

end Lists

section Windows

def FrameBound.tokens : FrameBound → List Token
  | .unboundedPreceding => [.word "UNBOUNDED", .word "PRECEDING"]
  | .currentRow => [.word "CURRENT", .word "ROW"]

def Frame.tokens (f : Frame) : List Token :=
  .keyword .ROWS :: .keyword .BETWEEN :: f.first.tokens ++ .operator "AND" :: f.last.tokens

lemma frame_legible (f : Frame) : Legible f.fragments f.tokens := by
  obtain ⟨first, last⟩ := f
  have hbound : ∀ b : FrameBound, Legible [.plain b.words] b.tokens := by
    intro b
    cases b <;> exact .single (by decide)
  have hrows : plainTokens "ROWS BETWEEN ".toList = some [.keyword .ROWS, .keyword .BETWEEN] := by
    decide
  have hand : plainTokens " AND ".toList = some [.operator "AND"] := by decide
  have hbounds := (hbound first).between hand (by decide) (by decide) (hbound last)
  have hframe := hbounds.plain hrows (by decide)
  simpa [Frame.tokens, Frame.fragments] using hframe

/-- Clauses with blanks between them have their tokens one after the other. -/
lemma legible_blanks {clauses : List (List Fragment)} {tss : List (List Token)}
    (h : List.Forall₂ Legible clauses tss) : Legible (separated " " clauses) tss.flatten := by
  have hblank : plainTokens " ".toList = some [] := by decide
  induction h with
  | nil => exact .nil
  | cons hclause hclauses ih =>
    cases hclauses with
    | nil => simpa [separated] using hclause
    | cons _ _ =>
      have hboth := hclause.between hblank (by decide) (by decide) ih
      exact hboth

/-- How reading goes on inside a window, behind some of its clauses. -/
structure InWindow (run : List Token → Option Tree) (f : Tree) (partitionBy orderBy : List Tree)
    (stack : List Pending) : Prop where
  closing : ∀ rest, run (.closing :: rest) = after stack (.window f partitionBy orderBy none) rest
  frame : ∀ (frame : Frame) rest, run (frame.tokens ++ .closing :: rest) =
    after stack (.window f partitionBy orderBy (some frame)) rest
  order : orderBy = [] → ∀ rest, run (.keyword .ORDER :: .keyword .BY :: rest) =
    operand (.order f partitionBy [] :: stack) rest

namespace InWindow

variable (f : Tree) (stack : List Pending)

lemma opened : InWindow (operand (.over f :: stack)) f [] [] stack where
  closing := fun rest => rfl
  frame := by
    rintro ⟨first, last⟩ rest
    cases first <;> cases last <;> rfl
  order := fun _ rest => rfl

lemma partition (first : List Tree) (last : Tree) :
    InWindow (after (.partition f first :: stack) last) f (first ++ [last]) [] stack where
  closing := fun rest => rfl
  frame := by
    rintro ⟨first, last⟩ rest
    cases first <;> cases last <;> rfl
  order := fun _ rest => rfl

lemma ordered (partitionBy first : List Tree) (last : Tree) :
    InWindow (after (.order f partitionBy first :: stack) last) f partitionBy (first ++ [last])
      stack where
  closing := fun rest => rfl
  frame := by
    rintro ⟨first, last⟩ rest
    cases first <;> cases last <;> rfl
  order := by simp

lemma boundary_frame (frame : Frame) (rest : List Token) :
    AtBoundary (frame.tokens ++ .closing :: rest) := by
  obtain ⟨first, last⟩ := frame
  cases first <;> cases last <;> exact .frame rest _ _ _ _

variable {f stack} {partitionBy orderBy : List Tree} {run run' : List Token → Option Tree}

lemma of_boundary (h : InWindow run f partitionBy orderBy stack)
    (heq : ∀ rest, AtBoundary rest → run' rest = run rest) :
    InWindow run' f partitionBy orderBy stack where
  closing := fun rest => (heq _ (.closing rest)).trans (h.closing rest)
  frame := fun frame rest => (heq _ (boundary_frame frame rest)).trans (h.frame frame rest)
  order := fun hnil rest => (heq _ (.order rest)).trans (h.order hnil rest)

end InWindow

lemma reads_partition {es : List Expr} (h : ∀ e ∈ es, Reads e) :
    ∃ tss, List.Forall₂ Legible (clause "PARTITION BY " (listFragments es)) tss ∧
      ∀ f stack, InWindow (fun rest => operand (.over f :: stack) (tss.flatten ++ rest)) f
        (es.map (Expr.treeWith true)) [] stack := by
  cases es with
  | nil => exact ⟨[], .nil, fun f stack => .opened f stack⟩
  | cons e es =>
    have hlist := reads_list h Pending.partition fun _ _ => rfl
    obtain ⟨ts, first, last, htrees, hts, hread⟩ :=
      reads_items Pending.partition (fun _ _ => rfl) (fun _ _ _ _ => rfl) hlist
        (by simp [listFragments])
    have hkeyword : plainTokens "PARTITION BY ".toList =
        some [.keyword .PARTITION, .keyword .BY] := by decide
    refine ⟨[[.keyword .PARTITION, .keyword .BY] ++ ts], ?_, ?_⟩
    · exact .cons (hts.plain hkeyword (by decide)) .nil
    · intro f stack
      rw [htrees]
      refine (InWindow.partition f stack first last).of_boundary ?_
      intro rest hrest
      rw [List.flatten_singleton, List.append_assoc]
      exact hread f [] stack rest hrest

lemma reads_order {terms : List (Ordered Expr)} (h : ∀ t ∈ terms, Reads t.target) :
    ∃ tss, List.Forall₂ Legible (clause "ORDER BY " (orderFragments terms)) tss ∧
      ∀ run f partitionBy stack, InWindow run f partitionBy [] stack →
        InWindow (fun rest => run (tss.flatten ++ rest)) f partitionBy
          (terms.map fun t => .directed (t.target.treeWith true) t.direction) stack := by
  cases terms with
  | nil => exact ⟨[], .nil, fun run f partitionBy stack hrun => hrun⟩
  | cons t terms =>
    obtain ⟨ts, first, last, htrees, hts, hread⟩ :=
      reads_items orderItem (fun _ _ => rfl) (fun _ _ _ _ => rfl) (reads_ordered h)
        (by simp [orderFragments])
    have hkeyword : plainTokens "ORDER BY ".toList =
        some [.keyword .ORDER, .keyword .BY] := by decide
    refine ⟨[[.keyword .ORDER, .keyword .BY] ++ ts], ?_, ?_⟩
    · exact .cons (hts.plain hkeyword (by decide)) .nil
    · intro run f partitionBy stack hrun
      rw [htrees]
      refine (InWindow.ordered f stack partitionBy first last).of_boundary ?_
      intro rest hrest
      rw [List.flatten_singleton, List.append_assoc]
      exact (hrun.order rfl _).trans (hread (f, partitionBy) [] stack rest hrest)

lemma reads_frame (frame : Option Frame) :
    ∃ tss, List.Forall₂ Legible (frame.map Frame.fragments).toList tss ∧
      ∀ run f partitionBy orderBy stack, InWindow run f partitionBy orderBy stack →
        ∀ rest, run (tss.flatten ++ .closing :: rest) =
          after stack (.window f partitionBy orderBy frame) rest := by
  cases frame with
  | none => exact ⟨[], .nil, fun run f partitionBy orderBy stack hrun => hrun.closing⟩
  | some frame =>
    refine ⟨[frame.tokens], .cons (frame_legible frame) .nil, ?_⟩
    intro run f partitionBy orderBy stack hrun rest
    rw [List.flatten_singleton]
    exact hrun.frame frame rest

end Windows

end PipelineSql.Sql
