import PipelineSql.ColumnExpr.Codec
import PipelineSql.Request.Basic

namespace PipelineSql

def exprsToJson (es : List ColumnExpr) : Json := .arr (es.map ColumnExpr.toJson)

/-- Named expressions, in order. -/
def namedToJson (m : OrderedMap ColumnExpr) : Json :=
  .obj (m.entries.map fun e => (e.1, e.2.toJson))

/-- The keys of a join: a list of names, or an object from left to right names. -/
def JoinKeys.toJson : JoinKeys → Json
  | .columns names => Json.strings names
  | .pairs names => .obj (names.entries.map fun e => (e.1, .str e.2))

mutual

def Request.toJson : Request → Json
  | ⟨collection, pipeline⟩ =>
    .obj [("collection", .str collection), ("pipeline", .arr (pipelineToJson pipeline))]

def pipelineToJson : List Verb → List Json
  | [] => []
  | v :: vs => v.toJson :: pipelineToJson vs

/-- The JSON form of a verb: its name first, and then its arguments. -/
def Verb.toJson : Verb → Json
  | .select columns => .obj [("verb", .str "select"), ("columns", exprsToJson columns)]
  | .filter predicates => .obj [("verb", .str "filter"), ("predicates", exprsToJson predicates)]
  | .mutate columns => .obj [("verb", .str "mutate"), ("columns", namedToJson columns)]
  | .arrange terms => .obj [("verb", .str "arrange"), ("terms", exprsToJson terms)]
  | .summarize columns => .obj [("verb", .str "summarize"), ("columns", namedToJson columns)]
  | .count columns name sort =>
    .obj ([("verb", .str "count"), ("columns", exprsToJson columns)] ++
      (match name with
        | none => []
        | some n => [("name", .str n)]) ++ [("sort", .bool sort)])
  | .groupBy columns add =>
    .obj [("verb", .str "group_by"), ("columns", exprsToJson columns), ("add", .bool add)]
  | .ungroup => .obj [("verb", .str "ungroup")]
  | .join right on how =>
    .obj [("verb", .str "join"), ("right", right.toJson), ("on", on.toJson), ("how", .str how.name)]
  | .rename columns => .obj [("verb", .str "rename"), ("columns", namedToJson columns)]
  | .distinct columns computed keepAll =>
    .obj ([("verb", .str "distinct"), ("columns", exprsToJson columns)] ++
      (if computed.isEmpty then [] else [("computed", namedToJson computed)]) ++
      [("keep_all", .bool keepAll)])
  | .head n => .obj [("verb", .str "head"), ("n", .int n.toNat)]

end

def exprsOfJson? (v : Json) : Option (List ColumnExpr) :=
  Json.listOf? (ColumnExpr.ofJson? .free) v

def namedOfJson? (v : Json) : Option (OrderedMap ColumnExpr) :=
  Json.mapOf? (ColumnExpr.ofJson? .free) v

def JoinKeys.ofJson? : Json → Option JoinKeys
  | .arr items => (items.mapM Json.str?).map .columns
  | .obj fields => (Json.mapOf? Json.str? (.obj fields)).map .pairs
  | _ => none

/-- The number of rows that `head` keeps by default. -/
def defaultHead : UInt32 := 5

/-- Reads the arguments of a verb that contains no other request. -/
def flatVerbOfJson? (name : String) (fields : List (String × Json)) : Option Verb :=
  if name = "select" then (Json.required? fields "columns" exprsOfJson?).map .select
  else if name = "filter" then (Json.required? fields "predicates" exprsOfJson?).map .filter
  else if name = "mutate" then (Json.required? fields "columns" namedOfJson?).map .mutate
  else if name = "arrange" then (Json.required? fields "terms" exprsOfJson?).map .arrange
  else if name = "summarize" then
    (Json.withDefault? fields "columns" .empty namedOfJson?).map .summarize
  else if name = "count" then do
    let columns ← Json.withDefault? fields "columns" [] exprsOfJson?
    let label ← Json.withDefault? fields "name" none (Json.nullable? Json.str?)
    let sort ← Json.withDefault? fields "sort" false Json.bool?
    return .count columns label sort
  else if name = "group_by" then do
    let columns ← Json.required? fields "columns" exprsOfJson?
    let add ← Json.withDefault? fields "add" false Json.bool?
    return .groupBy columns add
  else if name = "ungroup" then some .ungroup
  else if name = "rename" then (Json.required? fields "columns" namedOfJson?).map .rename
  else if name = "distinct" then do
    let columns ← Json.withDefault? fields "columns" [] exprsOfJson?
    let computed ← Json.withDefault? fields "computed" .empty namedOfJson?
    let keepAll ← Json.withDefault? fields "keep_all" false Json.bool?
    return .distinct columns computed keepAll
  else if name = "head" then (Json.withDefault? fields "n" defaultHead Json.uint32?).map .head
  else none

/-- The verbs in the order in which they are numbered, each with its arguments in their order. -/
def verbArguments : List (String × List String) :=
  [("select", ["columns"]), ("filter", ["predicates"]), ("mutate", ["columns"]),
    ("arrange", ["terms"]), ("summarize", ["columns"]), ("count", ["columns", "name", "sort"]),
    ("group_by", ["columns", "add"]), ("ungroup", []), ("join", ["right", "on", "how"]),
    ("rename", ["columns"]), ("distinct", ["columns", "computed", "keep_all"]), ("head", ["n"])]

/-- The name of a verb. Where forms are free a verb can also be given by its number. -/
def verbName? (manner : Json.Manner) : Json → Option String
  | .str name => some name
  | .int i => if manner = .free ∧ 0 ≤ i then verbArguments[i.toNat]?.map Prod.fst else none
  | _ => none

/-- The arguments of a verb from a list of them. -/
def argumentsOf? (name : String) (args : List Json) : Option (List (String × Json)) := do
  Json.record? (← verbArguments.lookup name) (.arr args)

/-- A join with a given right side. -/
def joinOf? (right : Request) (fields : List (String × Json)) : Option Verb := do
  let on ← Json.required? fields "on" JoinKeys.ofJson?
  let how ← Json.withDefault? fields "how" .inner fun v =>
    (v.word? .free).bind JoinKind.ofName?
  return .join right on how

mutual

/-- Reads a request: an object, or the table alone or with its pipeline in an array. -/
def Request.ofJson? (manner : Json.Manner) : Json → Option Request
  | .obj fields => do
    let collection ← Json.required? fields "collection" Json.str?
    let pipeline ← pipelineField? manner fields
    return ⟨collection, pipeline⟩
  | .arr [collection] => do return ⟨← collection.str?, []⟩
  | .arr [collection, .arr verbs] => do return ⟨← collection.str?, ← verbsOfJson? manner verbs⟩
  | _ => none

/-- The pipeline of a request, empty when it is absent. -/
def pipelineField? (manner : Json.Manner) : List (String × Json) → Option (List Verb)
  | [] => some []
  | (k, .arr items) :: rest =>
    if k = "pipeline" then
      if Json.hasField "pipeline" rest then none else verbsOfJson? manner items
    else pipelineField? manner rest
  | (k, _) :: rest => if k = "pipeline" then none else pipelineField? manner rest

/-- Reads verbs, each of which must be readable throughout. -/
def verbsOfJson? (manner : Json.Manner) : List Json → Option (List Verb)
  | [] => some []
  | v :: rest => do
    if v.isReadable then return (← Verb.ofJson? manner v) :: (← verbsOfJson? manner rest)
    else none

/-- Reads a verb: an object, or an array of its name and its arguments. What stands inside of it has
a free form. -/
def Verb.ofJson? (manner : Json.Manner) : Json → Option Verb
  | .obj fields => do
    let name ← Json.required? fields "verb" (verbName? manner)
    if name = "join" then joinOf? (← rightField? fields) fields
    else flatVerbOfJson? name fields
  | .arr (tag :: first :: rest) => do
    let name ← verbName? manner tag
    if name = "join" then
      joinOf? (← Request.ofJson? .free first) (← Json.record? ["on", "how"] (.arr rest))
    else flatVerbOfJson? name (← argumentsOf? name (first :: rest))
  | .arr [tag] => do
    let name ← verbName? manner tag
    flatVerbOfJson? name []
  | _ => none

/-- The right side of a join. -/
def rightField? : List (String × Json) → Option Request
  | [] => none
  | (k, v) :: rest =>
    if k = "right" then
      if Json.hasField "right" rest then none else Request.ofJson? .free v
    else rightField? rest

end

end PipelineSql
