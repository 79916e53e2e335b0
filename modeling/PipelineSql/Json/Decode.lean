import PipelineSql.Json.Basic

/-!
# Decoding JSON

Fields are looked up by name. A field that is known may stand at most once, and fields that are
not known are skipped. A record can also be written as the list of its values.
-/

namespace PipelineSql.Json

variable {α : Type}

/-- How much leeway there is in the way a thing is written. Inside a verb forms are free, and
everywhere else they are strict. -/
inductive Manner where
  | strict
  | free
deriving DecidableEq

def fields? : Json → Option (List (String × Json))
  | .obj fields => some fields
  | _ => none

def items? : Json → Option (List Json)
  | .arr items => some items
  | _ => none

def str? : Json → Option String
  | .str s => some s
  | _ => none

def bool? : Json → Option Bool
  | .bool b => some b
  | _ => none

/-- An integer from 0 to `2^32 - 1`. -/
def uint32? : Json → Option UInt32
  | .int i => if 0 ≤ i ∧ i < Int.pow 2 32 then some (UInt32.ofNat i.toNat) else none
  | _ => none

/-- An integer from `-2^63` to `2^63 - 1`. -/
def int64? : Json → Option Int64
  | .int i => if -Int.pow 2 63 ≤ i ∧ i < Int.pow 2 63 then some (Int64.ofInt i) else none
  | _ => none

/-- Any number, as a double. -/
def double? : Json → Option Double
  | .int i => some (Double.ofInt i)
  | .float x => some x
  | _ => none

/-- A word of a fixed vocabulary: a text, or an object whose only name it is and whose value is
`null`. Where forms are free that value can also be an empty object. -/
def word? (manner : Manner) : Json → Option String
  | .str s => some s
  | .obj [(s, .null)] => some s
  | .obj [(s, .obj [])] => if manner = .free then some s else none
  | _ => none

/-- The fields of a record: those of an object, or the items of an array under the first of the
given names. -/
def record? (names : List String) : Json → Option (List (String × Json))
  | .obj fields => some fields
  | .arr items => if items.length ≤ names.length then some (names.zip items) else none
  | _ => none

/-- A value or `null`. -/
def nullable? (decode : Json → Option α) : Json → Option (Option α)
  | .null => some none
  | v => (decode v).map some

/-- Whether a field stands in a list of fields. -/
def hasField (name : String) (fields : List (String × Json)) : Bool :=
  fields.any fun f => f.1 = name

/-- The value of a field that may stand at most once. Fails when the field is repeated. -/
def field? (fields : List (String × Json)) (name : String) : Option (Option Json) :=
  match fields.filter fun f => f.1 = name with
  | [] => some none
  | [f] => some (some f.2)
  | _ => none

/-- A field that must be there. -/
def required? (fields : List (String × Json)) (name : String) (decode : Json → Option α) :
    Option α := do
  match ← field? fields name with
  | none => none
  | some v => decode v

/-- A field with a default for its absence. -/
def withDefault? (fields : List (String × Json)) (name : String) (default : α)
    (decode : Json → Option α) : Option α := do
  match ← field? fields name with
  | none => some default
  | some v => decode v

def listOf? (decode : Json → Option α) (v : Json) : Option (List α) := do
  (← v.items?).mapM decode

/-- The entries of an object, each value decoded. -/
def entriesOf? (decode : Json → Option α) (v : Json) : Option (List (String × α)) := do
  (← v.fields?).mapM fun f => (decode f.2).map fun a => (f.1, a)

/-- An object read as a map. -/
def mapOf? (decode : Json → Option α) (v : Json) : Option (OrderedMap α) :=
  (entriesOf? decode v).map OrderedMap.ofList

end PipelineSql.Json
