import Mathlib.Data.List.Forall2
import Mathlib.Data.List.Nodup
import PipelineSql.Query.State

/-!
# Results and look-ups

What it means that a computation succeeds, and what a scope can answer. The verbs are written
with `do` in `Except`, so everything known about a successful verb starts from these facts.
-/

namespace PipelineSql

open Sql (Expr Select TableAlias)

section Results

variable {ε α β γ : Type}

lemma bind_eq_ok {x : Except ε α} {f : α → Except ε β} {b : β} :
    (x >>= f) = .ok b ↔ ∃ a, x = .ok a ∧ f a = .ok b := by
  cases x with
  | error e => simp [bind, Except.bind]
  | ok a => simp [bind, Except.bind]

lemma pure_eq_ok {a b : α} : (pure a : Except ε α) = .ok b ↔ a = b := by
  simp [pure, Except.pure]

lemma map_eq_ok {x : Except ε α} {f : α → β} {b : β} :
    x.map f = .ok b ↔ ∃ a, x = .ok a ∧ f a = b := by
  cases x with
  | error e => simp [Except.map]
  | ok a => simp [Except.map]

lemma bind_eq_error {x : Except ε α} {f : α → Except ε β} {e : ε} :
    (x >>= f) = .error e ↔ x = .error e ∨ ∃ a, x = .ok a ∧ f a = .error e := by
  cases x with
  | error e' => simp [bind, Except.bind]
  | ok a => simp [bind, Except.bind]

lemma map_eq_error {x : Except ε α} {f : α → β} {e : ε} :
    x.map f = .error e ↔ x = .error e := by
  cases x with
  | error e' => simp [Except.map]
  | ok a => simp [Except.map]

lemma exists_eq_ok {x : Except ε α} (h : x.isOk = true) : ∃ a, x = .ok a := by
  cases x with
  | error e => simp [Except.isOk, Except.toBool] at h
  | ok a => exact ⟨a, rfl⟩

/-- A list is mapped successfully exactly when each of its members is. -/
lemma mapM_eq_ok {f : α → Except ε β} {l : List α} {l' : List β} :
    l.mapM f = .ok l' ↔ List.Forall₂ (fun a b => f a = .ok b) l l' := by
  induction l generalizing l' with
  | nil =>
    rw [List.mapM_nil, pure_eq_ok, List.forall₂_nil_left_iff]
    exact eq_comm
  | cons a l ih =>
    simp only [List.mapM_cons, bind_eq_ok, pure_eq_ok]
    constructor
    · rintro ⟨b, hb, bs, hbs, rfl⟩
      exact .cons hb (ih.1 hbs)
    · intro h
      cases h with
      | cons hb hbs => exact ⟨_, hb, _, ih.2 hbs, rfl⟩

/-- A list is mapped with a failure only when one of its members is. -/
lemma exists_of_mapM_eq_error {f : α → Except ε β} {l : List α} {e : ε}
    (h : l.mapM f = .error e) : ∃ a ∈ l, f a = .error e := by
  induction l with
  | nil => cases h
  | cons a l ih =>
    rw [List.mapM_cons] at h
    rcases bind_eq_error.1 h with ha | ⟨b, _, h⟩
    · exact ⟨a, List.mem_cons_self, ha⟩
    rcases bind_eq_error.1 h with hl | ⟨bs, _, h⟩
    · obtain ⟨c, hc, hf⟩ := ih hl
      exact ⟨c, List.mem_cons_of_mem _ hc, hf⟩
    · cases h

lemma mapM_eq_some {f : α → Option β} {l : List α} {l' : List β} :
    l.mapM f = some l' ↔ List.Forall₂ (fun a b => f a = some b) l l' := by
  induction l generalizing l' with
  | nil =>
    rw [List.mapM_nil, List.forall₂_nil_left_iff]
    simp [eq_comm]
  | cons a l ih =>
    simp only [List.mapM_cons, Option.bind_eq_bind, Option.bind_eq_some_iff, Option.pure_def,
      Option.some.injEq]
    constructor
    · rintro ⟨b, hb, bs, hbs, rfl⟩
      exact .cons hb (ih.1 hbs)
    · intro h
      cases h with
      | cons hb hbs => exact ⟨_, hb, _, ih.2 hbs, rfl⟩

lemma mapM_congr {f g : α → Option β} {l : List α} (h : ∀ a ∈ l, f a = g a) :
    l.mapM f = l.mapM g := by
  induction l with
  | nil => rfl
  | cons a l ih =>
    rw [List.mapM_cons, List.mapM_cons, h a List.mem_cons_self,
      ih fun x hx => h x (List.mem_cons_of_mem _ hx)]

lemma foldlM_induction {σ : Type} {motive : σ → Prop} {f : σ → α → Except ε σ}
    (step : ∀ s a t, motive s → f s a = .ok t → motive t) {l : List α} {s t : σ} (hs : motive s)
    (h : l.foldlM f s = .ok t) : motive t := by
  induction l generalizing s with
  | nil =>
    cases h
    exact hs
  | cons a l ih =>
    simp only [List.foldlM_cons, bind_eq_ok] at h
    obtain ⟨u, hu, h⟩ := h
    exact ih (step _ _ _ hs hu) h

lemma exists_of_forall₂ {R : α → β → Prop} {l : List α} {l' : List β}
    (h : List.Forall₂ R l l') {b : β} (hb : b ∈ l') : ∃ a ∈ l, R a b := by
  induction h with
  | nil => simp at hb
  | cons hab _ ih =>
    rcases List.mem_cons.1 hb with rfl | hb
    · exact ⟨_, List.mem_cons_self, hab⟩
    · obtain ⟨a, ha, hR⟩ := ih hb
      exact ⟨a, List.mem_cons_of_mem _ ha, hR⟩

lemma forall₂_imp_mem {R S : α → β → Prop} {l : List α} {l' : List β} (h : List.Forall₂ R l l')
    (himp : ∀ a ∈ l, ∀ b, R a b → S a b) : List.Forall₂ S l l' := by
  induction h with
  | nil => exact .nil
  | cons hab _ ih =>
    exact .cons (himp _ List.mem_cons_self _ hab) (ih fun a ha => himp a (List.mem_cons_of_mem _ ha))

lemma map_eq_of_forall₂ {f : β → γ} {g : α → γ} {l : List α} {l' : List β}
    (h : List.Forall₂ (fun a b => f b = g a) l l') : l'.map f = l.map g := by
  induction h with
  | nil => rfl
  | cons hab _ ih => rw [List.map_cons, List.map_cons, hab, ih]

/-- Entries under the same names, one by one, have the same list of names. -/
lemma map_fst_of_forall₂ {κ : Type} {R : κ × α → κ × β → Prop} {l : List (κ × α)}
    {l' : List (κ × β)} (h : List.Forall₂ (fun a b => b.1 = a.1 ∧ R a b) l l') :
    l'.map Prod.fst = l.map Prod.fst :=
  map_eq_of_forall₂ (h.imp fun _ _ hab => hab.1)

/-- Pairs that share a third value make two lists that share a third list. -/
lemma exists_forall₂ {R : α → γ → Prop} {S : β → γ → Prop} {l : List α} {l' : List β}
    (h : List.Forall₂ (fun a b => ∃ c, R a c ∧ S b c) l l') :
    ∃ l'', List.Forall₂ R l l'' ∧ List.Forall₂ S l' l'' := by
  induction h with
  | nil => exact ⟨[], .nil, .nil⟩
  | cons hab _ ih =>
    obtain ⟨c, hR, hS⟩ := hab
    obtain ⟨l'', hl, hl'⟩ := ih
    exact ⟨c :: l'', .cons hR hl, .cons hS hl'⟩

end Results

section Entries

variable {α : Type}

lemma mem_putEntry {key : String} {value : α} {l : List (String × α)} {e : String × α}
    (h : e ∈ putEntry key value l) : e = (key, value) ∨ e ∈ l := by
  induction l with
  | nil =>
    left
    simpa [putEntry] using h
  | cons c rest ih =>
    obtain ⟨k, v⟩ := c
    by_cases hk : k = key
    · subst hk
      simp only [putEntry, if_true, List.mem_cons] at h
      rcases h with h | h
      · exact Or.inl h
      · exact Or.inr (List.mem_cons_of_mem _ h)
    · simp only [putEntry, hk, if_false, List.mem_cons] at h
      rcases h with h | h
      · exact Or.inr (h ▸ List.mem_cons_self)
      · exact (ih h).imp id (List.mem_cons_of_mem _)

/-- Setting an entry keeps the others under distinct names. -/
lemma nodup_putEntry {key : String} {value : α} {l : List (String × α)}
    (h : (l.map Prod.fst).Nodup) : ((putEntry key value l).map Prod.fst).Nodup :=
  (OrderedMap.insert ⟨l, h⟩ key value).nodup

lemma mem_of_lookup {l : List (String × α)} {k : String} {v : α} (h : l.lookup k = some v) :
    (k, v) ∈ l := by
  obtain ⟨l₁, l₂, rfl, _⟩ := List.lookup_eq_some_iff.1 h
  simp

lemma lookup_of_mem {l : List (String × α)} (hd : (l.map Prod.fst).Nodup) {k : String} {v : α}
    (h : (k, v) ∈ l) : l.lookup k = some v := by
  induction l with
  | nil => simp at h
  | cons e rest ih =>
    obtain ⟨k', v'⟩ := e
    simp only [List.map_cons, List.nodup_cons] at hd
    rcases List.mem_cons.1 h with he | hr
    · cases he
      simp
    · have hne : k ≠ k' := by
        rintro rfl
        exact hd.1 (List.mem_map_of_mem hr)
      have hb : (k == k') = false := by simpa using hne
      rw [List.lookup_cons, hb]
      exact ih hd.2 hr

lemma lookup_cons_eq_ite {l : List (String × α)} {n k : String} {v : α} :
    ((k, v) :: l).lookup n = if n = k then some v else l.lookup n := by
  by_cases hn : n = k
  · simp [hn]
  · have hb : (n == k) = false := beq_false_of_ne hn
    simp [List.lookup_cons, hb, hn]

lemma lookup_putEntry {l : List (String × α)} {n key : String} {value : α} :
    (putEntry key value l).lookup n = if n = key then some value else l.lookup n := by
  induction l with
  | nil => rw [putEntry, lookup_cons_eq_ite]
  | cons e rest ih =>
    obtain ⟨k, v⟩ := e
    by_cases hk : k = key
    · subst hk
      by_cases hn : n = k <;> simp [putEntry, lookup_cons_eq_ite, hn]
    · by_cases hn : n = k
      · subst hn
        simp [putEntry, hk]
      · simp [putEntry, hk, lookup_cons_eq_ite, hn, ih]

lemma exists_lookup {l : List (String × α)} {k : String} (h : k ∈ l.map Prod.fst) :
    ∃ v, l.lookup k = some v := by
  obtain ⟨e, he, rfl⟩ := List.mem_map.1 h
  have hs : (l.lookup e.1).isSome := List.lookup_isSome_iff.2 ⟨e, he, by simp⟩
  exact Option.isSome_iff_exists.1 hs

namespace OrderedMap

lemma mem_entries_extend {l : List (String × α)} {m : OrderedMap α} {e : String × α}
    (h : e ∈ (m.extend l).entries) : e ∈ m.entries ∨ e ∈ l := by
  induction l generalizing m with
  | nil => exact Or.inl h
  | cons c l ih =>
    rcases ih (m := m.insert c.1 c.2) h with h | h
    · rcases mem_putEntry h with rfl | h
      · exact Or.inr List.mem_cons_self
      · exact Or.inl h
    · exact Or.inr (List.mem_cons_of_mem _ h)

lemma mem_of_mem_ofList {l : List (String × α)} {e : String × α}
    (h : e ∈ (ofList l).entries) : e ∈ l := by
  rcases mem_entries_extend h with h | h
  · simp [empty] at h
  · exact h

lemma mem_keys_extend {l : List (String × α)} {m : OrderedMap α} {k : String} :
    k ∈ (m.extend l).keys ↔ k ∈ m.keys ∨ k ∈ l.map Prod.fst := by
  induction l generalizing m with
  | nil => simp [extend]
  | cons c l ih =>
    have hstep : m.extend (c :: l) = (m.insert c.1 c.2).extend l := rfl
    rw [hstep, ih, mem_keys_insert, List.map_cons, List.mem_cons, or_assoc]

lemma mem_keys_ofList {l : List (String × α)} {k : String} :
    k ∈ (ofList l).keys ↔ k ∈ l.map Prod.fst := by
  rw [ofList, mem_keys_extend]
  simp

/-- The names of a map are those of its entries, each at its first place; the values have no say. -/
lemma keys_extend {l : List (String × α)} {m : OrderedMap α} : (m.extend l).keys =
    l.foldl (fun keys e => if e.1 ∈ keys then keys else keys ++ [e.1]) m.keys := by
  induction l generalizing m with
  | nil => rfl
  | cons c l ih =>
    have hstep : m.extend (c :: l) = (m.insert c.1 c.2).extend l := rfl
    rw [hstep, ih, keys_insert, List.foldl_cons]

lemma putEntry_of_not_mem {key : String} {value : α} {l : List (String × α)}
    (h : key ∉ l.map Prod.fst) : putEntry key value l = l ++ [(key, value)] := by
  induction l with
  | nil => rfl
  | cons c rest ih =>
    obtain ⟨k, v⟩ := c
    simp only [List.map_cons, List.mem_cons, not_or] at h
    have hk : ¬k = key := fun he => h.1 he.symm
    simp only [putEntry, hk, if_false, ih h.2, List.cons_append]

/-- Entries under distinct names are kept as they are. -/
lemma entries_extend_of_nodup {l : List (String × α)} {m : OrderedMap α}
    (h : ((m.entries ++ l).map Prod.fst).Nodup) : (m.extend l).entries = m.entries ++ l := by
  induction l generalizing m with
  | nil => simp [extend]
  | cons c l ih =>
    have hc : c.1 ∉ m.entries.map Prod.fst := by
      intro hm
      rw [List.map_append, List.map_cons] at h
      exact (List.nodup_append.1 h).2.2 _ hm _ List.mem_cons_self rfl
    have hput : (m.insert c.1 c.2).entries = m.entries ++ [c] := putEntry_of_not_mem hc
    have hstep : m.extend (c :: l) = (m.insert c.1 c.2).extend l := rfl
    rw [hstep, ih, hput]
    · simp
    · rw [hput]
      simpa using h

lemma entries_ofList_of_nodup {l : List (String × α)} (h : (l.map Prod.fst).Nodup) :
    (ofList l).entries = l := by
  have hm : (((empty : OrderedMap α).entries ++ l).map Prod.fst).Nodup := h
  exact entries_extend_of_nodup hm

/-- Of several entries under a name, a map takes the last. -/
lemma get?_extend {m : OrderedMap α} {l : List (String × α)} {n : String} : (m.extend l).get? n =
    l.foldl (fun found e => if n = e.1 then some e.2 else found) (m.get? n) := by
  induction l generalizing m with
  | nil => rfl
  | cons e l ih =>
    have hstep : m.extend (e :: l) = (m.insert e.1 e.2).extend l := rfl
    have hinsert : (m.insert e.1 e.2).get? n = if n = e.1 then some e.2 else m.get? n :=
      lookup_putEntry
    rw [hstep, ih, hinsert, List.foldl_cons]

lemma get?_extend_putEntry {m : OrderedMap α} {l : List (String × α)} {n key : String} {value : α}
    (hn : n ≠ key) : (m.extend (putEntry key value l)).get? n = (m.extend l).get? n := by
  rw [get?_extend, get?_extend]
  generalize m.get? n = found
  induction l generalizing found with
  | nil => simp [putEntry, hn]
  | cons e rest ih =>
    obtain ⟨k, v⟩ := e
    by_cases hk : k = key
    · subst hk
      simp [putEntry, hn]
    · simp [putEntry, hk, ih]

end OrderedMap

/-- Names without repetition are kept as they are. -/
lemma OrderedSet.toList_extend_of_nodup {l : List String} {s : OrderedSet}
    (h : (s.toList ++ l).Nodup) : (s.extend l).toList = s.toList ++ l := by
  induction l generalizing s with
  | nil => simp [extend]
  | cons a l ih =>
    have ha : a ∉ s.toList := by
      intro hm
      exact (List.nodup_append.1 h).2.2 _ hm _ List.mem_cons_self rfl
    have hins : (s.insert a).toList = s.toList ++ [a] := by
      rw [toList_insert, if_neg ha]
    have hstep : s.extend (a :: l) = (s.insert a).extend l := rfl
    rw [hstep, ih, hins]
    · simp
    · rw [hins]
      simpa using h

end Entries

namespace Scope

lemma lookup_eq_ok {scope : Scope} {name : String} {x : Expr} :
    scope.lookup name = .ok x ↔ scope.columns.get? name = some x := by
  unfold lookup
  cases scope.columns.get? name with
  | none => simp
  | some y => simp

/-- A scope answers with one of the entries that it was made from. -/
lemma mem_of_lookup_ofSelectList {q : Select} {name : String} {x : Expr}
    (h : (ofSelectList q).lookup name = .ok x) : (name, x) ∈ q.columns :=
  OrderedMap.mem_of_mem_ofList (mem_of_lookup (lookup_eq_ok.1 h))

lemma lookup_ofSubquery {q : Select} {a : TableAlias} {name : String} {x : Expr}
    (h : (ofSubquery q a).lookup name = .ok x) :
    x = .labelled a name ∧ name ∈ q.columnNames := by
  have hmem := OrderedMap.mem_of_mem_ofList (mem_of_lookup (lookup_eq_ok.1 h))
  obtain ⟨c, hc, he⟩ := List.mem_map.1 hmem
  cases he
  exact ⟨rfl, List.mem_map_of_mem hc⟩

lemma names_ofSubquery (q : Select) (a : TableAlias) :
    (ofSubquery q a).names = (ofSelectList q).names := by
  simp only [names, ofSubquery, ofSelectList, OrderedMap.ofList, OrderedMap.keys_extend,
    List.foldl_map]

lemma mem_selectList_ofSubquery {q : Select} {a : TableAlias} {c : String × Expr}
    (h : c ∈ (ofSubquery q a).selectList) : c.2 = .labelled a c.1 ∧ c.1 ∈ q.columnNames := by
  obtain ⟨d, hd, rfl⟩ := List.mem_map.1 (OrderedMap.mem_of_mem_ofList h)
  exact ⟨rfl, List.mem_map.2 ⟨d, hd, rfl⟩⟩

lemma project_eq_ok {scope : Scope} {names : List String} {list : List (String × Expr)} :
    scope.project names = .ok list ↔
      list.map Prod.fst = names ∧ ∀ c ∈ list, scope.lookup c.1 = .ok c.2 := by
  unfold project
  rw [mapM_eq_ok]
  simp only [bind_eq_ok, pure_eq_ok]
  constructor
  · intro h
    induction h with
    | nil => simp
    | cons hab _ ih =>
      obtain ⟨x, hx, rfl⟩ := hab
      refine ⟨by simp [ih.1], ?_⟩
      intro c hc
      rcases List.mem_cons.1 hc with rfl | hc
      · exact hx
      · exact ih.2 c hc
  · rintro ⟨rfl, h⟩
    induction list with
    | nil => exact .nil
    | cons c list ih =>
      refine .cons ⟨c.2, h c List.mem_cons_self, rfl⟩ ?_
      exact ih fun d hd => h d (List.mem_cons_of_mem _ hd)

lemma project_ofSubquery {q : Select} {a : TableAlias} {names : List String}
    {list : List (String × Expr)} (h : (ofSubquery q a).project names = .ok list) :
    list = names.map fun n => (n, .labelled a n) := by
  obtain ⟨rfl, hlist⟩ := project_eq_ok.1 h
  have hentries : list.map id = list.map fun c => (c.1, Expr.labelled a c.1) := by
    refine List.map_congr_left ?_
    intro c hc
    exact Prod.ext rfl (lookup_ofSubquery (hlist c hc)).1
  rw [List.map_map]
  exact (List.map_id list).symm.trans hentries

/-- A scope knows the columns that it was made from. -/
lemma mem_names_ofSelectList {q : Select} {n : String} :
    n ∈ (ofSelectList q).names ↔ n ∈ q.columnNames :=
  OrderedMap.mem_keys_ofList

lemma mem_names_ofSubquery {q : Select} {a : TableAlias} {n : String} :
    n ∈ (ofSubquery q a).names ↔ n ∈ q.columnNames := by
  rw [names, ofSubquery, OrderedMap.mem_keys_ofList, List.map_map]
  rfl

lemma lookup_ofSubquery_of_mem {q : Select} {n : String} (h : n ∈ q.columnNames)
    (a : TableAlias) : (ofSubquery q a).lookup n = .ok (.labelled a n) := by
  obtain ⟨x, hx⟩ := exists_lookup (mem_names_ofSubquery.2 h)
  have hlookup : (ofSubquery q a).lookup n = .ok x := lookup_eq_ok.2 hx
  rw [hlookup, (lookup_ofSubquery hlookup).1]

lemma mem_names_of_lookup {scope : Scope} {n : String} {x : Expr} (h : scope.lookup n = .ok x) :
    n ∈ scope.names :=
  List.mem_map_of_mem (mem_of_lookup (lookup_eq_ok.1 h))

/-- A scope fails to answer only for a name that it does not know. -/
lemma lookup_unknown {scope : Scope} {n name : String} {available : List String}
    (h : scope.lookup n = .error (.unknownColumn name available)) :
    n = name ∧ name ∉ scope.names := by
  unfold lookup at h
  split at h
  · cases h
  · rename_i hnone
    cases h
    refine ⟨rfl, ?_⟩
    intro hmem
    obtain ⟨x, hx⟩ := exists_lookup hmem
    rw [OrderedMap.get?, hx] at hnone
    cases hnone

end Scope

end PipelineSql
