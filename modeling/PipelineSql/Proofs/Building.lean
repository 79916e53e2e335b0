import PipelineSql.Proofs.Compiling

/-!
# What builders make of their arguments

A template only combines its arguments: every property of expressions that the constructors of
row-wise SQL keep is passed on from the arguments to what is built.
-/

namespace PipelineSql

open Sql (Expr Ordered)

/-- A property that row-wise SQL passes on, where only some functions are called. -/
structure RowClosed (calls : String → Prop) (P : Expr → Prop) : Prop where
  value : ∀ v, P (.value v)
  and : ∀ l r, P l → P r → P (.and l r)
  or : ∀ l r, P l → P r → P (.or l r)
  not : ∀ e, P e → P (.not e)
  binary : ∀ l symbol r, P l → P r → P (.binary l symbol r)
  isIn : ∀ e es, P e → (∀ x ∈ es, P x) → P (.isIn e es)
  isNull : ∀ e, P e → P (.isNull e)
  isNotNull : ∀ e, P e → P (.isNotNull e)
  negate : ∀ e, P e → P (.negate e)
  call : ∀ f args, calls f → (∀ x ∈ args, P x) → P (.call f args)
  case : ∀ whens otherwise, (∀ w ∈ whens, P w.1 ∧ P w.2) → (∀ e ∈ otherwise, P e) →
    P (.case whens otherwise)
  cast : ∀ e type, P e → P (.cast e type)

/-- The functions that a template calls outside windows. -/
def Template.functions : Template → List String
  | .function name => [name]
  | .functionOf name _ => [name]
  | .round => ["round"]
  | .coalesce => ["coalesce"]
  | .yearOfText => ["strftime"]
  | .mondayOfText => ["date"]
  | _ => []

/-- Whether a template makes a window function. -/
def Template.isWindow : Template → Bool
  | .overPartition _ | .countPartition | .ranking _ | .running _ => true
  | _ => false

namespace Arguments

variable {α : Type} {a : Arguments} {y : α}

lemma one_cases {f : Expr → α} (h : a.one f = .ok y) : ∃ x, a = ⟨[x], []⟩ ∧ y = f x := by
  obtain ⟨args, keywords⟩ := a
  unfold one at h
  split at h
  · rename_i x hk hx
    cases h
    simp only at hk hx
    exact ⟨x, by rw [hk, hx], rfl⟩
  · cases h
  · cases h

lemma two_cases {f : Expr → Expr → α} (h : a.two f = .ok y) :
    ∃ x₁ x₂, a = ⟨[x₁, x₂], []⟩ ∧ y = f x₁ x₂ := by
  obtain ⟨args, keywords⟩ := a
  unfold two at h
  split at h
  · rename_i x₁ x₂ hk hx
    cases h
    simp only at hk hx
    exact ⟨x₁, x₂, by rw [hk, hx], rfl⟩
  · cases h
  · cases h

lemma three_cases {f : Expr → Expr → Expr → α} (h : a.three f = .ok y) :
    ∃ x₁ x₂ x₃, a = ⟨[x₁, x₂, x₃], []⟩ ∧ y = f x₁ x₂ x₃ := by
  obtain ⟨args, keywords⟩ := a
  unfold three at h
  split at h
  · rename_i x₁ x₂ x₃ hk hx
    cases h
    simp only at hk hx
    exact ⟨x₁, x₂, x₃, by rw [hk, hx], rfl⟩
  · cases h
  · cases h

lemma one_eq_ok {f : Expr → α} (h : a.one f = .ok y) : ∃ x ∈ a.all, y = f x := by
  obtain ⟨x, rfl, rfl⟩ := one_cases h
  exact ⟨x, by simp [all], rfl⟩

lemma two_eq_ok {f : Expr → Expr → α} (h : a.two f = .ok y) :
    ∃ x₁ ∈ a.all, ∃ x₂ ∈ a.all, y = f x₁ x₂ := by
  obtain ⟨x₁, x₂, rfl, rfl⟩ := two_cases h
  exact ⟨x₁, by simp [all], x₂, by simp [all], rfl⟩

lemma three_eq_ok {f : Expr → Expr → Expr → α} (h : a.three f = .ok y) :
    ∃ x₁ ∈ a.all, ∃ x₂ ∈ a.all, ∃ x₃ ∈ a.all, y = f x₁ x₂ x₃ := by
  obtain ⟨x₁, x₂, x₃, rfl, rfl⟩ := three_cases h
  exact ⟨x₁, by simp [all], x₂, by simp [all], x₃, by simp [all], rfl⟩

lemma atMostOne_eq_ok {fault : ArgumentFault} {f : Option Expr → α}
    (h : a.atMostOne fault f = .ok y) : ∃ x, (∀ e ∈ x, e ∈ a.all) ∧ y = f x := by
  obtain ⟨args, keywords⟩ := a
  unfold atMostOne at h
  split at h
  · cases h
    exact ⟨none, by simp, rfl⟩
  · rename_i x hk hx
    cases h
    simp only at hx
    exact ⟨some x, by simp [all, hx], rfl⟩
  · cases h

lemma mem_all_of_lookup {key : String} {x : Expr} (h : a.keywords.lookup key = some x) :
    x ∈ a.all := by
  refine List.mem_append_right _ ?_
  exact List.mem_map.2 ⟨(key, x), mem_of_lookup h, rfl⟩

lemma mem_all_of_mem_args {x : Expr} (h : x ∈ a.args) : x ∈ a.all :=
  List.mem_append_left _ h

end Arguments

lemma mem_of_mem_pairUp {l : List Expr} {w : Expr × Expr} (h : w ∈ pairUp l) :
    w.1 ∈ l ∧ w.2 ∈ l := by
  induction l using pairUp.induct with
  | case1 c e rest ih =>
    simp only [pairUp, List.mem_cons] at h
    rcases h with rfl | h
    · simp
    · exact ⟨by simp [(ih h).1], by simp [(ih h).2]⟩
  | case2 l hl =>
    rw [pairUp] at h
    · simp at h
    · exact hl

section Closed

variable {calls : String → Prop} {P : Expr → Prop} {a : Arguments} {e : Expr}

lemma RowClosed.conjunction (hP : RowClosed calls P) {es : List Expr} (h : ∀ e ∈ es, P e) :
    P (Expr.conjunction es) := by
  have hfold : ∀ (es : List Expr) (e : Expr), P e → (∀ x ∈ es, P x) → P (es.foldl Expr.and e) := by
    intro es
    induction es with
    | nil => exact fun e he _ => he
    | cons x es ih =>
      intro e he hes
      exact ih _ (hP.and _ _ he (hes x List.mem_cons_self)) fun y hy =>
        hes y (List.mem_cons_of_mem _ hy)
  cases es with
  | nil => exact hP.value _
  | cons e es =>
    exact hfold es e (h e List.mem_cons_self) fun x hx => h x (List.mem_cons_of_mem _ hx)

lemma buildCast_closed (hP : RowClosed calls P) (ha : ∀ x ∈ a.all, P x) {dialect : Dialect}
    (h : buildCast dialect a = .ok e) : P e := by
  unfold buildCast at h
  split at h
  · rename_i x target hx _
    obtain ⟨type, _, rfl⟩ := map_eq_ok.1 h
    exact hP.cast _ _ (ha x (Arguments.mem_all_of_mem_args (by simp [hx])))
  · rename_i x target hx _
    obtain ⟨type, _, rfl⟩ := map_eq_ok.1 h
    exact hP.cast _ _ (ha x (Arguments.mem_all_of_mem_args (by simp [hx])))
  · cases h

lemma buildCase_closed (hP : RowClosed calls P) (ha : ∀ x ∈ a.all, P x)
    (h : buildCase a = .ok e) : P e := by
  unfold buildCase at h
  split at h
  · cases h
  · split at h
    · cases h
    · cases h
      refine hP.case _ _ ?_ ?_
      · intro w hw
        obtain ⟨h₁, h₂⟩ := mem_of_mem_pairUp hw
        exact ⟨ha _ (Arguments.mem_all_of_mem_args h₁), ha _ (Arguments.mem_all_of_mem_args h₂)⟩
      · intro x hx
        exact ha x (Arguments.mem_all_of_lookup hx)

lemma buildIsIn_closed (hP : RowClosed calls P) (ha : ∀ x ∈ a.all, P x)
    (h : buildIsIn a = .ok e) : P e := by
  unfold buildIsIn at h
  split at h
  · cases h
  · cases h
  · cases h
    exact hP.value _
  · rename_i x values _ _ hx
    cases h
    have hargs : ∀ y ∈ x :: values, P y := by
      intro y hy
      exact ha y (Arguments.mem_all_of_mem_args (hx ▸ hy))
    exact hP.isIn _ _ (hargs x List.mem_cons_self) fun y hy => hargs y (List.mem_cons_of_mem _ hy)

lemma buildRound_closed (hP : RowClosed calls P) (hc : calls "round") (ha : ∀ x ∈ a.all, P x)
    (h : buildRound a = .ok e) : P e := by
  unfold buildRound at h
  split at h
  · obtain ⟨x, hx, rfl⟩ := Arguments.one_eq_ok h
    exact hP.call _ _ hc (by simpa using ha x hx)
  · obtain ⟨x, hx, y, hy, rfl⟩ := Arguments.two_eq_ok h
    exact hP.call _ _ hc (by simpa using ⟨ha x hx, ha y hy⟩)
  · cases h

lemma buildCoalesce_closed (hP : RowClosed calls P) (hc : calls "coalesce")
    (ha : ∀ x ∈ a.all, P x) (h : buildCoalesce a = .ok e) : P e := by
  unfold buildCoalesce at h
  split at h
  · rename_i x rest _ hx
    cases h
    refine hP.call _ _ hc ?_
    intro y hy
    exact ha y (Arguments.mem_all_of_mem_args (hx ▸ hy))
  · cases h

lemma Matching.pattern_closed (hP : RowClosed calls P) {needle : Expr} (hn : P needle)
    (matching : Matching) : P (matching.pattern needle) := by
  have hwild : P (.text "%") := hP.value _
  cases matching with
  | start => exact hP.binary _ _ _ hn hwild
  | finish => exact hP.binary _ _ _ hwild hn
  | anywhere => exact hP.binary _ _ _ (hP.binary _ _ _ hwild hn) hwild

lemma Template.isWindow_iff_of_build {t : Template} {a : Arguments} {b : Built}
    (h : t.build a = .ok b) : t.isWindow = true ↔ ∃ call, b = .window call := by
  cases t with
  | overPartition name | running name | function name | functionOf name text | not | negate
  | isNull | isNotNull | yearOfText | mondayOfText | countDistinct =>
    obtain ⟨x, _, rfl⟩ := Arguments.one_eq_ok h
    simp [isWindow]
  | countPartition | ranking name | countRows =>
    simp only [build] at h
    obtain ⟨x, _, rfl⟩ := Arguments.atMostOne_eq_ok h
    simp [isWindow]
  | operator symbol | and | or | like matching =>
    obtain ⟨x, _, y, _, rfl⟩ := Arguments.two_eq_ok h
    simp [isWindow]
  | between | ifElse =>
    obtain ⟨x, _, y, _, z, _, rfl⟩ := Arguments.three_eq_ok h
    simp [isWindow]
  | isIn | round | caseWhen | coalesce | cast dialect =>
    obtain ⟨r, _, rfl⟩ := map_eq_ok.1 h
    simp [isWindow]

/-- A finished expression is a count, or is put together from the arguments row by row. -/
theorem Template.build_expression {t : Template} (hP : RowClosed calls P)
    (hc : ∀ f ∈ t.functions, calls f) (ha : ∀ x ∈ a.all, P x)
    (h : t.build a = .ok (.expression e)) :
    (t = .countRows ∧ e = .countAll) ∨ (t = .countDistinct ∧ ∃ x ∈ a.all, e = .countDistinct x) ∨
      P e := by
  cases t with
  | operator symbol =>
    obtain ⟨x, hx, y, hy, he⟩ := Arguments.two_eq_ok h
    cases he
    exact Or.inr (Or.inr (hP.binary _ _ _ (ha x hx) (ha y hy)))
  | function name =>
    obtain ⟨x, hx, he⟩ := Arguments.one_eq_ok h
    cases he
    exact Or.inr (Or.inr (hP.call _ _ (hc _ (by simp [functions])) (by simpa using ha x hx)))
  | functionOf name text =>
    obtain ⟨x, hx, he⟩ := Arguments.one_eq_ok h
    cases he
    refine Or.inr (Or.inr (hP.call _ _ (hc _ (by simp [functions])) ?_))
    simpa using ⟨hP.value (.str text), ha x hx⟩
  | and =>
    obtain ⟨x, hx, y, hy, he⟩ := Arguments.two_eq_ok h
    cases he
    exact Or.inr (Or.inr (hP.and _ _ (ha x hx) (ha y hy)))
  | or =>
    obtain ⟨x, hx, y, hy, he⟩ := Arguments.two_eq_ok h
    cases he
    exact Or.inr (Or.inr (hP.or _ _ (ha x hx) (ha y hy)))
  | not =>
    obtain ⟨x, hx, he⟩ := Arguments.one_eq_ok h
    cases he
    exact Or.inr (Or.inr (hP.not _ (ha x hx)))
  | negate =>
    obtain ⟨x, hx, he⟩ := Arguments.one_eq_ok h
    cases he
    exact Or.inr (Or.inr (hP.negate _ (ha x hx)))
  | isNull =>
    obtain ⟨x, hx, he⟩ := Arguments.one_eq_ok h
    cases he
    exact Or.inr (Or.inr (hP.isNull _ (ha x hx)))
  | isNotNull =>
    obtain ⟨x, hx, he⟩ := Arguments.one_eq_ok h
    cases he
    exact Or.inr (Or.inr (hP.isNotNull _ (ha x hx)))
  | between =>
    obtain ⟨x, hx, low, hlow, high, hhigh, he⟩ := Arguments.three_eq_ok h
    cases he
    refine Or.inr (Or.inr (hP.and _ _ ?_ ?_))
    · exact hP.binary _ _ _ (ha x hx) (ha low hlow)
    · exact hP.binary _ _ _ (ha x hx) (ha high hhigh)
  | isIn =>
    obtain ⟨r, hr, he⟩ := map_eq_ok.1 h
    cases he
    exact Or.inr (Or.inr (buildIsIn_closed hP ha hr))
  | round =>
    obtain ⟨r, hr, he⟩ := map_eq_ok.1 h
    cases he
    exact Or.inr (Or.inr (buildRound_closed hP (hc _ (by simp [functions])) ha hr))
  | like matching =>
    obtain ⟨x, hx, needle, hneedle, he⟩ := Arguments.two_eq_ok h
    cases he
    refine Or.inr (Or.inr (hP.binary _ _ _ (ha x hx) ?_))
    exact Matching.pattern_closed hP (ha needle hneedle) matching
  | ifElse =>
    obtain ⟨c, hcond, yes, hyes, no, hno, he⟩ := Arguments.three_eq_ok h
    cases he
    refine Or.inr (Or.inr (hP.case _ _ ?_ ?_))
    · simpa using ⟨ha c hcond, ha yes hyes⟩
    · simpa using ha no hno
  | caseWhen =>
    obtain ⟨r, hr, he⟩ := map_eq_ok.1 h
    cases he
    exact Or.inr (Or.inr (buildCase_closed hP ha hr))
  | coalesce =>
    obtain ⟨r, hr, he⟩ := map_eq_ok.1 h
    cases he
    exact Or.inr (Or.inr (buildCoalesce_closed hP (hc _ (by simp [functions])) ha hr))
  | cast dialect =>
    obtain ⟨r, hr, he⟩ := map_eq_ok.1 h
    cases he
    exact Or.inr (Or.inr (buildCast_closed hP ha hr))
  | yearOfText =>
    obtain ⟨x, hx, he⟩ := Arguments.one_eq_ok h
    cases he
    refine Or.inr (Or.inr (hP.cast _ _ (hP.call _ _ (hc _ (by simp [functions])) ?_)))
    simpa using ⟨hP.value (.str "%Y"), ha x hx⟩
  | mondayOfText =>
    obtain ⟨x, hx, he⟩ := Arguments.one_eq_ok h
    cases he
    refine Or.inr (Or.inr (hP.call _ _ (hc _ (by simp [functions])) ?_))
    simpa using ⟨ha x hx, hP.value (.str "-6 days"), hP.value (.str "weekday 1")⟩
  | countRows =>
    simp only [build] at h
    obtain ⟨x, _, he⟩ := Arguments.atMostOne_eq_ok h
    cases he
    exact Or.inl ⟨rfl, rfl⟩
  | countDistinct =>
    obtain ⟨x, hx, he⟩ := Arguments.one_eq_ok h
    cases he
    exact Or.inr (Or.inl ⟨rfl, x, hx, rfl⟩)
  | overPartition name | countPartition | ranking name | running name =>
    obtain ⟨call, he⟩ := (isWindow_iff_of_build h).1 rfl
    cases he

end Closed

namespace FunctionTable

/-- A table all of whose builders are among those that the dialects are made of. -/
def Standard (f : FunctionTable) : Prop :=
  ∀ operation mode builder, f.find? operation mode = some builder →
    ∃ t : Template, builder = t.build

lemma lookup_eq_ok {f : FunctionTable} {operation : Operation} {mode : Mode} {builder : Builder} :
    f.lookup operation mode = .ok builder ↔ f.find? operation mode = some builder := by
  unfold lookup
  cases f.find? operation mode with
  | none => simp
  | some b => simp

/-- The builders of a built-in table, by what they are called for. -/
lemma find?_builtIn {dialect : Dialect} {operation : Operation} {mode : Mode} {builder : Builder}
    (h : (builtIn dialect).find? operation mode = some builder) :
    ∃ t : Template, builder = t.build ∧ (scalarTemplate dialect operation = some t ∨
      (mode = .aggregate ∧ aggregateTemplate dialect operation = some t) ∨
      (mode = .window ∧ windowTemplate dialect operation = some t)) := by
  unfold find? builtIn at h
  simp only at h
  split at h
  · rename_i b hb
    obtain ⟨t, ht, rfl⟩ := Option.map_eq_some_iff.1 hb
    cases h
    exact ⟨t, rfl, Or.inl ht⟩
  · cases mode with
    | scalar => cases h
    | aggregate =>
      obtain ⟨t, ht, rfl⟩ := Option.map_eq_some_iff.1 h
      exact ⟨t, rfl, Or.inr (Or.inl ⟨rfl, ht⟩)⟩
    | window =>
      obtain ⟨t, ht, rfl⟩ := Option.map_eq_some_iff.1 h
      exact ⟨t, rfl, Or.inr (Or.inr ⟨rfl, ht⟩)⟩

lemma builtIn_standard (dialect : Dialect) : (builtIn dialect).Standard := by
  intro operation mode builder h
  obtain ⟨t, rfl, _⟩ := find?_builtIn h
  exact ⟨t, rfl⟩

/-- Removing operations, and borrowing builders from the tables of the dialects, gives such tables
again. -/
lemma Standard.edit {f g : FunctionTable} {change : Edit} (hf : f.Standard)
    (h : f.edit change = .ok g) : g.Standard := by
  intro operation mode builder hb
  cases change with
  | remove removed =>
    cases h
    by_cases ho : operation = removed
    · cases mode <;> simp [find?, without, setEntry, ho] at hb
    · refine hf operation mode builder ?_
      simpa [find?, without, setEntry, ho] using hb
  | borrow bucket target dialect lender lenderMode =>
    simp only [FunctionTable.edit, bind_eq_ok, pure_eq_ok] at h
    obtain ⟨b, hlookup, rfl⟩ := h
    have hnew : ∃ t : Template, b = t.build :=
      builtIn_standard dialect lender lenderMode b (lookup_eq_ok.1 hlookup)
    have hold : builder = b ∨ f.find? operation mode = some builder := by
      by_cases ho : operation = target
      · cases hs : f.scalar operation with
        | none =>
          cases bucket <;> cases mode <;>
            simp_all [withBuilder, withScalar, withAggregate, withWindow, find?, setEntry]
        | some builder' =>
          cases bucket <;>
            simp_all [withBuilder, withScalar, withAggregate, withWindow, find?, setEntry]
      · right
        cases bucket <;>
          simpa [withBuilder, withScalar, withAggregate, withWindow, find?, setEntry, ho] using hb
    rcases hold with rfl | hold
    · exact hnew
    · exact hf operation mode builder hold

end FunctionTable

/-- A window function is applied to arguments, or to nothing, and ranks by an argument. -/
theorem Template.build_window {t : Template} {a : Arguments} {call : WindowCall}
    (h : t.build a = .ok (.window call)) :
    (call.function = .countAll ∨ ∃ f xs, (∀ x ∈ xs, x ∈ a.all) ∧ call.function = .call f xs) ∧
      ∀ term, call.kind = .ranking (some term) → term.target ∈ a.all := by
  cases t with
  | overPartition name =>
    obtain ⟨x, hx, he⟩ := Arguments.one_eq_ok h
    cases he
    exact ⟨Or.inr ⟨name, [x], by simpa using hx, rfl⟩, by simp⟩
  | countPartition =>
    simp only [build] at h
    obtain ⟨x, _, he⟩ := Arguments.atMostOne_eq_ok h
    cases he
    exact ⟨Or.inl rfl, by simp⟩
  | ranking name =>
    simp only [build] at h
    obtain ⟨x, hx, he⟩ := Arguments.atMostOne_eq_ok h
    cases he
    refine ⟨Or.inr ⟨name, [], by simp, rfl⟩, ?_⟩
    intro term hterm
    cases x with
    | none => simp at hterm
    | some target =>
      simp only [Option.map_some, WindowKind.ranking.injEq, Option.some.injEq] at hterm
      subst hterm
      exact hx target rfl
  | running name =>
    obtain ⟨x, hx, he⟩ := Arguments.one_eq_ok h
    cases he
    exact ⟨Or.inr ⟨name, [x], by simpa using hx, rfl⟩, by simp⟩
  | _ =>
    have hwindow := (isWindow_iff_of_build h).2 ⟨call, rfl⟩
    simp [isWindow] at hwindow

end PipelineSql
