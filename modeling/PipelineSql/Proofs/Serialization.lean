import Mathlib.Data.String.Basic
import PipelineSql.Proofs.ColumnReads
import PipelineSql.Request.Codec

/-!
# Requests survive being written

Reading the JSON form of an expression or of a request gives it back. The forms are mixed: single
tags for expressions, a name among the arguments for verbs, arrays or objects for keys, fields that
are left out when they hold their default. Every reader is shown to undo its writer, and the
request is put together from these.
-/

namespace PipelineSql

section Entries

variable {α : Type}

lemma insertEntry_of_lt {key : String} {value : α} {l : List (String × α)}
    (h : ∀ e ∈ l, e.1 < key) : insertEntry key value l = l ++ [(key, value)] := by
  induction l with
  | nil => rfl
  | cons e rest ih =>
    obtain ⟨k, v⟩ := e
    have hk : k < key := h (k, v) List.mem_cons_self
    have hrest : insertEntry key value rest = rest ++ [(key, value)] := by
      apply ih
      intro e he
      exact h e (List.mem_cons_of_mem _ he)
    rw [insertEntry, if_neg hk.ne', if_neg hk.asymm, hrest, List.cons_append]

/-- Entries that are sorted already stay as they are. -/
lemma sortEntries_of_sorted {l : List (String × α)} (h : (l.map Prod.fst).Pairwise (· < ·)) :
    sortEntries l = l := by
  have hfold : ∀ sorted rest : List (String × α),
      ((sorted ++ rest).map Prod.fst).Pairwise (· < ·) →
      rest.foldl (fun sorted e => insertEntry e.1 e.2 sorted) sorted = sorted ++ rest := by
    intro sorted rest
    induction rest generalizing sorted with
    | nil => simp
    | cons e rest ih =>
      intro hpair
      have hlast : ∀ d ∈ sorted, d.1 < e.1 := by
        intro d hd
        rw [List.map_append, List.pairwise_append] at hpair
        exact hpair.2.2 d.1 (List.mem_map_of_mem hd) e.1 (by simp)
      rw [List.foldl_cons, insertEntry_of_lt hlast, ih]
      · simp
      · simpa using hpair
  have hall := hfold [] l (by simpa using h)
  simpa [sortEntries] using hall

lemma OrderedMap.ofList_entries (m : OrderedMap α) : OrderedMap.ofList m.entries = m := by
  obtain ⟨entries, hnodup⟩ := m
  have hentries : (OrderedMap.ofList entries).entries = entries :=
    OrderedMap.entries_ofList_of_nodup hnodup
  cases hm : OrderedMap.ofList entries with
  | mk entries' _ =>
    rw [hm] at hentries
    cases hentries
    rfl

end Entries

namespace Json

variable {α : Type}

/-- A list is read back when each of its members is. -/
lemma listOf?_arr {write : α → Json} {read : Json → Option α} {l : List α}
    (h : ∀ a ∈ l, read (write a) = some a) : listOf? read (.arr (l.map write)) = some l := by
  have hmap : (l.map write).mapM read = some l := by
    rw [mapM_eq_some, List.forall₂_map_left_iff, List.forall₂_same]
    exact h
  simpa [listOf?, items?] using hmap

/-- A map is read back, its entries in their order, when each of its values is. -/
lemma mapOf?_obj {write : α → Json} {read : Json → Option α} {m : OrderedMap α}
    (h : ∀ e ∈ m.entries, read (write e.2) = some e.2) :
    mapOf? read (.obj (m.entries.map fun e => (e.1, write e.2))) = some m := by
  have hentries : (m.entries.map fun e => (e.1, write e.2)).mapM
      (fun f => (read f.2).map fun a => (f.1, a)) = some m.entries := by
    rw [mapM_eq_some, List.forall₂_map_left_iff, List.forall₂_same]
    intro e he
    simp [h e he]
  simp [mapOf?, entriesOf?, fields?, hentries, OrderedMap.ofList_entries]

lemma readableItems_eq (items : List Json) : readableItems items = items.all isReadable := by
  induction items with
  | nil => rfl
  | cons v items ih => rw [readableItems, ih, List.all_cons]

lemma readableFields_eq (fields : List (String × Json)) :
    readableFields fields = fields.all fun f => f.2.isReadable := by
  induction fields with
  | nil => rfl
  | cons f fields ih => rw [readableFields, ih, List.all_cons]

@[simp] lemma isReadable_arr (items : List Json) : (arr items).isReadable = items.all isReadable :=
  readableItems_eq items

@[simp] lemma isReadable_obj (fields : List (String × Json)) :
    (obj fields).isReadable = fields.all fun f => f.2.isReadable :=
  readableFields_eq fields

@[simp] lemma isReadable_str (s : String) : (str s).isReadable = true := rfl

@[simp] lemma isReadable_bool (b : Bool) : (bool b).isReadable = true := rfl

end Json

namespace Literal

/-- A constant other than a double that is no number, or infinite. -/
def Finite : Literal → Prop
  | .float x => x.isFinite = true
  | _ => True

lemma int64?_int (i : Int64) : (Json.int i.toInt).int64? = some i := by
  have hlow := i.le_toInt
  have hhigh := i.toInt_lt
  have hrange : -Int.pow 2 63 ≤ i.toInt ∧ i.toInt < Int.pow 2 63 := ⟨hlow, hhigh⟩
  rw [Json.int64?, if_pos hrange, Int64.ofInt_toInt]

lemma ofJson?_toJson {v : Literal} (h : v.Finite) : ofJson? v.toJson = some v := by
  cases v with
  | int i => simp only [toJson, ofJson?, int64?_int]
  | float x =>
    have hx : x.isFinite = true := h
    simp [toJson, Json.ofDouble, hx, ofJson?]
  | null | bool b | str s => rfl

lemma isReadable_toJson (v : Literal) : v.toJson.isReadable = true := by
  cases v with
  | float x =>
    rw [toJson, Json.ofDouble]
    split <;> rfl
  | null | bool _ | int _ | str _ => rfl

end Literal

namespace ColumnExpr

/-- The keyword arguments of every call are sorted, each keyword once, and doubles are finite. -/
inductive Writable : ColumnExpr → Prop where
  | reference : Writable .reference
  | attr {parent : ColumnExpr} {name : String} : Writable parent → Writable (.attr parent name)
  | call {operation : Operation} {args : List ColumnExpr}
      {keywords : List (String × ColumnExpr)} : (∀ a ∈ args, Writable a) →
      (keywords.map Prod.fst).Pairwise (· < ·) → (∀ k ∈ keywords, Writable k.2) →
      Writable (.call operation args keywords)
  | index {parent key : ColumnExpr} : Writable parent → Writable key →
      Writable (.index parent key)
  | slice {start stop : Option ColumnExpr} : (∀ e ∈ start, Writable e) →
      (∀ e ∈ stop, Writable e) → Writable (.slice start stop)
  | literal {v : Literal} : v.Finite → Writable (.literal v)

lemma argsToJson_eq (args : List ColumnExpr) : argsToJson args = args.map toJson := by
  induction args with
  | nil => rfl
  | cons a args ih => rw [argsToJson, ih, List.map_cons]

lemma keywordsToJson_eq (keywords : List (String × ColumnExpr)) :
    keywordsToJson keywords = keywords.map fun k => (k.1, k.2.toJson) := by
  induction keywords with
  | nil => rfl
  | cons k keywords ih => rw [keywordsToJson, ih, List.map_cons]

attribute [local simp] toJson tagged

/-- The written form of an expression is never `null`, which stands for a missing bound. -/
lemma toJson_ne_null (e : ColumnExpr) : e.toJson ≠ .null := by
  cases e with
  | attr parent name => cases parent <;> simp
  | call operation args keywords => cases keywords <;> simp
  | reference | index _ _ | slice _ _ | literal _ => simp

variable {manner : Json.Manner}

lemma listOfJson?_eq (items : List Json) :
    listOfJson? manner items = items.mapM (ofJson? manner) := by
  induction items with
  | nil => rfl
  | cons v items ih => simp [listOfJson?, ih]

lemma entriesOfJson?_eq (fields : List (String × Json)) :
    entriesOfJson? manner fields =
      fields.mapM fun f => (ofJson? manner f.2).map fun e => (f.1, e) := by
  induction fields with
  | nil => rfl
  | cons f fields ih =>
    obtain ⟨k, v⟩ := f
    simp only [entriesOfJson?, ih, List.mapM_cons]
    cases ofJson? manner v <;> rfl

lemma listOfJson?_argsToJson {args : List ColumnExpr}
    (h : ∀ a ∈ args, ofJson? manner a.toJson = some a) :
    listOfJson? manner (argsToJson args) = some args := by
  rw [listOfJson?_eq, argsToJson_eq, mapM_eq_some, List.forall₂_map_left_iff, List.forall₂_same]
  exact h

lemma entriesOfJson?_keywordsToJson {keywords : List (String × ColumnExpr)}
    (h : ∀ k ∈ keywords, ofJson? manner k.2.toJson = some k.2) :
    entriesOfJson? manner (keywordsToJson keywords) = some keywords := by
  rw [entriesOfJson?_eq, keywordsToJson_eq, mapM_eq_some, List.forall₂_map_left_iff,
    List.forall₂_same]
  intro k hk
  simp [h k hk]

lemma nullable?_boundToJson {bound : Option ColumnExpr}
    (h : ∀ e ∈ bound, ofJson? manner e.toJson = some e) :
    Json.nullable? (fun _ => ofJson? manner (boundToJson bound)) (boundToJson bound) =
      some bound := by
  cases bound with
  | none => rfl
  | some e =>
    have hread : ofJson? manner e.toJson = some e := h e rfl
    have hnull := e.toJson_ne_null
    cases hv : e.toJson with
    | null => exact absurd hv hnull
    | _ => simp_all [boundToJson, Json.nullable?]

/-- Reading the written form of an expression gives the expression back. -/
lemma ofJson?_toJson {e : ColumnExpr} (h : e.Writable) : ofJson? manner e.toJson = some e := by
  induction h with
  | reference => simp [ofJson?]
  | @attr parent name _ ih =>
    by_cases hparent : parent = .reference
    · subst hparent
      simp [ofJson?, Json.str?, column]
    · have hwritten : (attr parent name).toJson =
          tagged "attribute" (.obj [("parent", parent.toJson), ("name", .str name)]) := by
        cases parent with
        | reference => exact absurd rfl hparent
        | attr | call | index | slice | literal => rfl
      simp [hwritten, ofJson?, exprField?, Json.hasField, Json.required?, Json.field?, Json.str?,
        ih]
  | @call operation args keywords _ hsorted _ hargs hkeywords =>
    have hoperation : operationOfJson? (.str operation.name) = some operation :=
      operation.ofName?_name
    have ha := listOfJson?_argsToJson hargs
    have hk := entriesOfJson?_keywordsToJson hkeywords
    have hs := sortEntries_of_sorted hsorted
    cases keywords with
    | nil =>
      simp [ofJson?, argsField?, keywordsField?, argsOf?, Json.hasField, Json.required?,
        Json.field?, hoperation, ha, sortEntries]
    | cons k ks =>
      simp [ofJson?, argsField?, keywordsField?, argsOf?, keywordsOf?, Json.hasField,
        Json.required?, Json.field?, hoperation, ha, hk, hs]
  | index _ _ hparent hkey =>
    simp [ofJson?, exprField?, Json.hasField, hparent, hkey]
  | slice _ _ hstart hstop =>
    simp [ofJson?, boundField?, Json.hasField, nullable?_boundToJson hstart,
      nullable?_boundToJson hstop]
  | @literal v hv =>
    have hread : Literal.ofJson? v.toJson = some v := Literal.ofJson?_toJson hv
    cases v with
    | float x =>
      have hx : x.isFinite = true := hv
      simp_all [Literal.toJson, Json.ofDouble, ofJson?]
    | null | bool b | int i | str s => simp_all [Literal.toJson, ofJson?]

lemma isReadable_toJson (e : ColumnExpr) : e.toJson.isReadable = true := by
  induction e using induct with
  | reference => rfl
  | attr parent name hparent =>
    cases parent with
    | reference => rfl
    | attr | call | index | slice | literal =>
      simp_all
  | call operation args keywords hargs hkeywords =>
    have ha : (argsToJson args).all Json.isReadable = true := by
      rw [argsToJson_eq, List.all_map, List.all_eq_true]
      exact hargs
    have hk : (keywordsToJson keywords).all (fun f => f.2.isReadable) = true := by
      rw [keywordsToJson_eq, List.all_map, List.all_eq_true]
      exact hkeywords
    cases keywords with
    | nil => simp [ha]
    | cons k ks => simp [ha, hk]
  | index parent key hparent hkey =>
    simp [hparent, hkey]
  | slice start stop hstart hstop =>
    have hbound : ∀ bound : Option ColumnExpr, (∀ e ∈ bound, e.toJson.isReadable = true) →
        (boundToJson bound).isReadable = true := by
      intro bound h
      cases bound with
      | none => rfl
      | some e => exact h e rfl
    simp [hbound start hstart, hbound stop hstop]
  | literal v =>
    simp [v.isReadable_toJson]

end ColumnExpr

section Arguments

lemma exprsOfJson?_exprsToJson {es : List ColumnExpr} (h : ∀ e ∈ es, e.Writable) :
    exprsOfJson? (exprsToJson es) = some es :=
  Json.listOf?_arr fun e he => ColumnExpr.ofJson?_toJson (h e he)

lemma namedOfJson?_namedToJson {m : OrderedMap ColumnExpr} (h : ∀ e ∈ m.values, e.Writable) :
    namedOfJson? (namedToJson m) = some m :=
  Json.mapOf?_obj fun e he => ColumnExpr.ofJson?_toJson (h e.2 (List.mem_map_of_mem he))

lemma JoinKeys.ofJson?_toJson (keys : JoinKeys) : ofJson? keys.toJson = some keys := by
  cases keys with
  | columns names =>
    have hnames : (names.map Json.str).mapM Json.str? = some names := by
      rw [mapM_eq_some, List.forall₂_map_left_iff, List.forall₂_same]
      exact fun _ _ => rfl
    simp [toJson, ofJson?, Json.strings, hnames]
  | pairs names =>
    have hpairs : Json.mapOf? Json.str? (.obj (names.entries.map fun e => (e.1, .str e.2))) =
        some names := Json.mapOf?_obj fun _ _ => rfl
    simp [toJson, ofJson?, hpairs]

lemma JoinKind.ofName?_name (kind : JoinKind) : ofName? kind.name = some kind := by
  cases kind <;> rfl

lemma uint32?_int (n : UInt32) : (Json.int n.toNat).uint32? = some n := by
  have hrange : 0 ≤ (n.toNat : Int) ∧ (n.toNat : Int) < Int.pow 2 32 := by
    have hlt : n.toNat < 4294967296 := n.toNat_lt
    have hpow : Int.pow 2 32 = 4294967296 := by decide
    omega
  rw [Json.uint32?, if_pos hrange, Int.toNat_natCast, UInt32.ofNat_toNat]

lemma isReadable_exprsToJson (es : List ColumnExpr) : (exprsToJson es).isReadable = true := by
  rw [exprsToJson, Json.isReadable_arr, List.all_map, List.all_eq_true]
  exact fun e _ => e.isReadable_toJson

lemma isReadable_namedToJson (m : OrderedMap ColumnExpr) :
    (namedToJson m).isReadable = true := by
  rw [namedToJson, Json.isReadable_obj, List.all_map, List.all_eq_true]
  exact fun e _ => e.2.isReadable_toJson

lemma JoinKeys.isReadable_toJson (keys : JoinKeys) : keys.toJson.isReadable = true := by
  cases keys with
  | columns names =>
    rw [toJson, Json.strings, Json.isReadable_arr, List.all_map, List.all_eq_true]
    exact fun _ _ => rfl
  | pairs names =>
    rw [toJson, Json.isReadable_obj, List.all_map, List.all_eq_true]
    exact fun _ _ => rfl

end Arguments

section Requests

mutual

/-- The expressions of a request, those of joined requests included. -/
def Request.exprs : Request → List ColumnExpr
  | ⟨_, pipeline⟩ => pipelineExprs pipeline

def pipelineExprs : List Verb → List ColumnExpr
  | [] => []
  | v :: verbs => v.exprs ++ pipelineExprs verbs

def Verb.exprs : Verb → List ColumnExpr
  | .select columns => columns
  | .filter predicates => predicates
  | .mutate columns => columns.values
  | .arrange terms => terms
  | .summarize columns => columns.values
  | .count columns _ _ => columns
  | .groupBy columns _ => columns
  | .ungroup => []
  | .join right _ _ => right.exprs
  | .rename columns => columns.values
  | .distinct columns computed _ => columns ++ computed.values
  | .head _ => []

end

mutual

theorem Request.isReadable_toJson : ∀ r : Request, r.toJson.isReadable = true
  | ⟨collection, pipeline⟩ => by
    simp [Request.toJson, readable_pipelineToJson pipeline]

theorem readable_pipelineToJson : ∀ verbs : List Verb,
    (pipelineToJson verbs).all Json.isReadable = true
  | [] => rfl
  | v :: verbs => by
    rw [pipelineToJson, List.all_cons, Verb.isReadable_toJson v,
      readable_pipelineToJson verbs, Bool.and_self]

theorem Verb.isReadable_toJson : ∀ v : Verb, v.toJson.isReadable = true
  | .select columns | .filter columns | .arrange columns => by
    simp [Verb.toJson, isReadable_exprsToJson]
  | .mutate columns | .summarize columns | .rename columns => by
    simp [Verb.toJson, isReadable_namedToJson]
  | .count columns name sort => by
    cases name <;> simp [Verb.toJson, isReadable_exprsToJson]
  | .groupBy columns add => by
    simp [Verb.toJson, isReadable_exprsToJson]
  | .ungroup => rfl
  | .join right on how => by
    simp [Verb.toJson, Request.isReadable_toJson right, on.isReadable_toJson]
  | .distinct columns computed keepAll => by
    by_cases hempty : computed.isEmpty = true <;>
      simp [Verb.toJson, isReadable_exprsToJson, isReadable_namedToJson, hempty]
  | .head n => rfl

end

lemma eq_empty_of_isEmpty {m : OrderedMap ColumnExpr} (h : m.isEmpty = true) : m = .empty := by
  obtain ⟨entries, hnodup⟩ := m
  have hnil : entries = [] := List.isEmpty_iff.1 h
  subst hnil
  rfl

/-- A join is read back once its right side is. -/
lemma joinOfJson?_toJson {manner : Json.Manner} {right : Request} {on : JoinKeys} {how : JoinKind}
    (h : Request.ofJson? .free right.toJson = some right) :
    Verb.ofJson? manner (Verb.join right on how).toJson = some (.join right on how) := by
  have hon : JoinKeys.ofJson? on.toJson = some on := on.ofJson?_toJson
  have hhow : JoinKind.ofName? how.name = some how := how.ofName?_name
  simp [Verb.toJson, Verb.ofJson?, Json.required?, Json.withDefault?, Json.field?, verbName?,
    rightField?, Json.hasField, joinOf?, Json.word?, h, hon, hhow]

/-- A verb other than a join is read by its name. -/
lemma Verb.ofJson?_named {manner : Json.Manner} {name : String} {rest : List (String × Json)}
    (hrest : Json.hasField "verb" rest = false) (hjoin : name ≠ "join") :
    Verb.ofJson? manner (.obj (("verb", .str name) :: rest)) =
      flatVerbOfJson? name (("verb", .str name) :: rest) := by
  have hnone : rest.filter (fun f => f.1 = "verb") = [] := by
    simpa [Json.hasField] using hrest
  have hverb : Json.required? (("verb", .str name) :: rest) "verb" (verbName? manner) =
      some name := by
    simp [Json.required?, Json.field?, hnone, verbName?]
  simp [Verb.ofJson?, hverb, hjoin]

-- The bound of a 32-bit number must stay folded, and so the number is read apart from the verb.
lemma headOfJson?_toJson {manner : Json.Manner} (n : UInt32) :
    Verb.ofJson? manner (Verb.head n).toJson = some (.head n) := by
  have hfield : ∀ v : Json, Json.field? [("verb", .str "head"), ("n", v)] "n" = some (some v) := by
    simp [Json.field?]
  have hread : ∀ v : Json, flatVerbOfJson? "head" [("verb", .str "head"), ("n", v)] =
      v.uint32?.map .head := by
    intro v
    simp [flatVerbOfJson?, Json.withDefault?, hfield]
  rw [Verb.toJson, Verb.ofJson?_named (by simp [Json.hasField]) (by decide), hread, uint32?_int,
    Option.map_some]

/-- A verb without another request in it is read back when its expressions are. -/
lemma flatVerbOfJson?_toJson {manner : Json.Manner} {v : Verb} (h : ∀ e ∈ v.exprs, e.Writable)
    (hflat : ∀ right on how, v ≠ .join right on how) :
    Verb.ofJson? manner v.toJson = some v := by
  cases v with
  | join right on how => exact absurd rfl (hflat right on how)
  | head n => exact headOfJson?_toJson n
  | ungroup =>
    rw [Verb.toJson, Verb.ofJson?_named (by simp [Json.hasField]) (by decide)]
    simp [flatVerbOfJson?]
  | select columns | filter columns | arrange columns =>
    have hcolumns : exprsOfJson? (exprsToJson columns) = some columns :=
      exprsOfJson?_exprsToJson h
    rw [Verb.toJson, Verb.ofJson?_named (by simp [Json.hasField]) (by decide)]
    simp [flatVerbOfJson?, Json.required?, Json.field?, hcolumns]
  | mutate columns | rename columns | summarize columns =>
    have hcolumns : namedOfJson? (namedToJson columns) = some columns :=
      namedOfJson?_namedToJson h
    rw [Verb.toJson, Verb.ofJson?_named (by simp [Json.hasField]) (by decide)]
    simp [flatVerbOfJson?, Json.required?, Json.withDefault?, Json.field?, hcolumns]
  | count columns name sort =>
    have hcolumns : exprsOfJson? (exprsToJson columns) = some columns :=
      exprsOfJson?_exprsToJson h
    cases name <;>
      rw [Verb.toJson, List.append_assoc, List.cons_append,
        Verb.ofJson?_named (by simp [Json.hasField]) (by decide)] <;>
      simp [flatVerbOfJson?, Json.withDefault?, Json.field?, Json.nullable?, Json.str?,
        Json.bool?, hcolumns]
  | groupBy columns add =>
    have hcolumns : exprsOfJson? (exprsToJson columns) = some columns :=
      exprsOfJson?_exprsToJson h
    rw [Verb.toJson, Verb.ofJson?_named (by simp [Json.hasField]) (by decide)]
    simp [flatVerbOfJson?, Json.required?, Json.withDefault?, Json.field?, Json.bool?, hcolumns]
  | distinct columns computed keepAll =>
    have hcolumns : exprsOfJson? (exprsToJson columns) = some columns :=
      exprsOfJson?_exprsToJson fun e he => h e (List.mem_append_left _ he)
    have hcomputed : namedOfJson? (namedToJson computed) = some computed :=
      namedOfJson?_namedToJson fun e he => h e (List.mem_append_right _ he)
    -- an empty map of computed columns is left out, and its absence stands for it
    by_cases hempty : computed.isEmpty = true
    · obtain rfl := eq_empty_of_isEmpty hempty
      rw [Verb.toJson, if_pos hempty, List.append_assoc, List.cons_append,
        Verb.ofJson?_named (by simp [Json.hasField]) (by decide)]
      simp [flatVerbOfJson?, Json.withDefault?, Json.field?, Json.bool?, hcolumns]
    · rw [Verb.toJson, if_neg hempty, List.append_assoc, List.cons_append,
        Verb.ofJson?_named (by simp [Json.hasField]) (by decide)]
      simp [flatVerbOfJson?, Json.withDefault?, Json.field?, Json.bool?, hcolumns, hcomputed]

mutual

theorem Request.ofJson?_toJson {manner : Json.Manner} : ∀ r : Request,
    (∀ e ∈ r.exprs, e.Writable) → Request.ofJson? manner r.toJson = some r
  | ⟨collection, pipeline⟩, h => by
    have hverbs : verbsOfJson? manner (pipelineToJson pipeline) = some pipeline :=
      verbsOfJson?_pipelineToJson pipeline h
    simp [Request.toJson, Request.ofJson?, Json.required?, Json.field?, Json.str?,
      pipelineField?, Json.hasField, hverbs]

theorem verbsOfJson?_pipelineToJson {manner : Json.Manner} : ∀ verbs : List Verb,
    (∀ e ∈ pipelineExprs verbs, e.Writable) →
      verbsOfJson? manner (pipelineToJson verbs) = some verbs
  | [], _ => rfl
  | v :: verbs, h => by
    have hv : Verb.ofJson? manner v.toJson = some v :=
      Verb.ofJson?_toJson v fun e he => h e (List.mem_append_left _ he)
    have hverbs : verbsOfJson? manner (pipelineToJson verbs) = some verbs :=
      verbsOfJson?_pipelineToJson verbs fun e he => h e (List.mem_append_right _ he)
    simp [pipelineToJson, verbsOfJson?, v.isReadable_toJson, hv, hverbs]

theorem Verb.ofJson?_toJson {manner : Json.Manner} : ∀ v : Verb,
    (∀ e ∈ v.exprs, e.Writable) → Verb.ofJson? manner v.toJson = some v
  | .join right on how, h => by
    have hright : Request.ofJson? .free right.toJson = some right :=
      Request.ofJson?_toJson right h
    exact joinOfJson?_toJson hright
  | .select columns, h => flatVerbOfJson?_toJson h (by simp)
  | .filter predicates, h => flatVerbOfJson?_toJson h (by simp)
  | .mutate columns, h => flatVerbOfJson?_toJson h (by simp)
  | .arrange terms, h => flatVerbOfJson?_toJson h (by simp)
  | .summarize columns, h => flatVerbOfJson?_toJson h (by simp)
  | .count columns name sort, h => flatVerbOfJson?_toJson h (by simp)
  | .groupBy columns add, h => flatVerbOfJson?_toJson h (by simp)
  | .ungroup, h => flatVerbOfJson?_toJson h (by simp)
  | .rename columns, h => flatVerbOfJson?_toJson h (by simp)
  | .distinct columns computed keepAll, h => flatVerbOfJson?_toJson h (by simp)
  | .head n, h => flatVerbOfJson?_toJson h (by simp)

end

/-- Every request is read back from its written form, with joined requests at any depth, the order
of its named entries and the kind of its keys; and so is every expression, with the kind of its
numbers and the bounds of its slices. -/
theorem written_requests_read_back (manner : Json.Manner) :
    (∀ r : Request, (∀ e ∈ r.exprs, e.Writable) → Request.ofJson? manner r.toJson = some r) ∧
      ∀ e : ColumnExpr, e.Writable → ColumnExpr.ofJson? manner e.toJson = some e :=
  ⟨Request.ofJson?_toJson, fun _ => ColumnExpr.ofJson?_toJson⟩

/-- A request with what is easily confused in it: the numbers `1` and `1.0`, a bound that is `null`
and one that is missing, keys in pairs and in a list, and names out of alphabetical order. -/
def mixedRequest : Request :=
  ⟨"people", [
    .mutate (.ofList [("b", .literal (.int 1)), ("a", .literal (.float (.ofInt 1)))]),
    .filter [.call .round [.column "x"] [("digits", .literal (.int 2)), ("places", .reference)]],
    .select [.index .reference (.slice (some (.literal .null)) none)],
    .join ⟨"orders", [.rename (.ofList [("person", .column "who")]),
      .join ⟨"shops", []⟩ (.columns ["shop"]) .inner]⟩ (.pairs (.ofList [("x", "who")])) .left,
    .distinct [.column "b"] (.ofList [("c", .attr (.column "x") "dt")]) true,
    .count [] (some "rows") true, .count [.column "b"] none false, .head 3]⟩

theorem mixedRequest_read_back :
    (∀ e ∈ mixedRequest.exprs, e.Writable) ∧
      Request.ofJson? .strict mixedRequest.toJson = some mixedRequest := by
  have hcolumn : ∀ name, (ColumnExpr.column name).Writable := fun _ => .attr .reference
  have hint : ∀ i : Int64, (ColumnExpr.literal (.int i)).Writable := fun _ => .literal trivial
  have hfloat : (ColumnExpr.literal (.float (.ofInt 1))).Writable := by
    apply ColumnExpr.Writable.literal
    change (Double.ofInt 1).isFinite = true
    decide
  have hround : (ColumnExpr.call .round [.column "x"]
      [("digits", .literal (.int 2)), ("places", .reference)]).Writable :=
    .call (by simp [hcolumn]) (by decide) (by simp [hint, ColumnExpr.Writable.reference])
  have hslice : (ColumnExpr.index .reference
      (.slice (some (.literal .null)) none)).Writable :=
    .index .reference (.slice (by simpa using .literal trivial) (by simp))
  have hattr : (ColumnExpr.attr (.column "x") "dt").Writable := .attr (hcolumn "x")
  have hwritable : ∀ e ∈ mixedRequest.exprs, e.Writable := by
    simp [mixedRequest, Request.exprs, pipelineExprs, Verb.exprs, OrderedMap.values,
      OrderedMap.entries_ofList_of_nodup, hcolumn, hint, hfloat, hround, hslice, hattr]
  exact ⟨hwritable, (written_requests_read_back .strict).1 mixedRequest hwritable⟩

end Requests

end PipelineSql
