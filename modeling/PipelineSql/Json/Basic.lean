import PipelineSql.Data.OrderedMap
import PipelineSql.Number.Double

namespace PipelineSql

/-- A JSON value. Objects keep their fields in the order and number in which they were written;
an integer is told apart from a number with a fraction or an exponent.

Some text is well-formed and still has no value: a number beyond every double, a text with one half
of a surrogate pair, an object with such a name, or a container that is nested too deep. It is read
as `unreadable`, so that what nobody looks at can be skipped. -/
inductive Json where
  | null
  | bool (value : Bool)
  | int (value : Int)
  | float (value : Double)
  | str (value : String)
  | arr (items : List Json)
  | obj (fields : List (String × Json))
  | unreadable

instance : Inhabited Json := ⟨.null⟩

namespace Json

mutual

/-- Whether two values are the same, fields and items in the same order. -/
def same : Json → Json → Bool
  | .null, .null => true
  | .bool a, .bool b => a = b
  | .int a, .int b => a = b
  | .float a, .float b => a = b
  | .str a, .str b => a = b
  | .arr a, .arr b => sameItems a b
  | .obj a, .obj b => sameFields a b
  | .unreadable, .unreadable => true
  | _, _ => false

def sameItems : List Json → List Json → Bool
  | [], [] => true
  | a :: as, b :: bs => a.same b && sameItems as bs
  | _, _ => false

def sameFields : List (String × Json) → List (String × Json) → Bool
  | [], [] => true
  | (k, a) :: as, (l, b) :: bs => k = l && a.same b && sameFields as bs
  | _, _ => false

end

mutual

theorem eq_of_same : {a b : Json} → a.same b = true → a = b
  | .null, .null, _ => rfl
  | .bool a, .bool b, h => by simp [same] at h; rw [h]
  | .int a, .int b, h => by simp [same] at h; rw [h]
  | .float a, .float b, h => by simp [same] at h; rw [h]
  | .str a, .str b, h => by simp [same] at h; rw [h]
  | .arr a, .arr b, h => congrArg Json.arr (eq_of_sameItems h)
  | .obj a, .obj b, h => congrArg Json.obj (eq_of_sameFields h)
  | .unreadable, .unreadable, _ => rfl

theorem eq_of_sameItems : {a b : List Json} → sameItems a b = true → a = b
  | [], [], _ => rfl
  | a :: as, b :: bs, h => by
    simp only [sameItems, Bool.and_eq_true] at h
    rw [eq_of_same h.1, eq_of_sameItems h.2]

theorem eq_of_sameFields : {a b : List (String × Json)} → sameFields a b = true → a = b
  | [], [], _ => rfl
  | (k, a) :: as, (l, b) :: bs, h => by
    simp only [sameFields, Bool.and_eq_true, decide_eq_true_eq] at h
    rw [h.1.1, eq_of_same h.1.2, eq_of_sameFields h.2]

end

mutual

theorem same_self : (a : Json) → a.same a = true
  | .null => rfl
  | .bool a => by simp [same]
  | .int a => by simp [same]
  | .float a => by simp [same]
  | .str a => by simp [same]
  | .arr a => sameItems_self a
  | .obj a => sameFields_self a
  | .unreadable => rfl

theorem sameItems_self : (a : List Json) → sameItems a a = true
  | [] => rfl
  | a :: as => by simp [sameItems, same_self a, sameItems_self as]

theorem sameFields_self : (a : List (String × Json)) → sameFields a a = true
  | [] => rfl
  | (k, a) :: as => by simp [sameFields, same_self a, sameFields_self as]

end

instance : DecidableEq Json := fun a b =>
  decidable_of_iff (a.same b = true) ⟨eq_of_same, fun h => h ▸ same_self a⟩

mutual

/-- Settles repeated fields at every level: a repeated name keeps its first place and takes its
last value. -/
def settle : Json → Json
  | .null => .null
  | .bool b => .bool b
  | .int i => .int i
  | .float x => .float x
  | .str s => .str s
  | .arr items => .arr (settleItems items)
  | .obj fields => .obj (OrderedMap.ofList (settleFields fields)).entries
  | .unreadable => .unreadable

def settleItems : List Json → List Json
  | [] => []
  | a :: as => a.settle :: settleItems as

def settleFields : List (String × Json) → List (String × Json)
  | [] => []
  | (k, a) :: as => (k, a.settle) :: settleFields as

end

mutual

/-- Whether a value can be read throughout. -/
def isReadable : Json → Bool
  | .arr items => readableItems items
  | .obj fields => readableFields fields
  | .unreadable => false
  | _ => true

def readableItems : List Json → Bool
  | [] => true
  | a :: as => a.isReadable && readableItems as

def readableFields : List (String × Json) → Bool
  | [] => true
  | (_, a) :: as => a.isReadable && readableFields as

end

/-- A finite double as a number; the others have no JSON form and become `null`. -/
def ofDouble (x : Double) : Json := if x.isFinite then .float x else .null

/-- An array of texts. -/
def strings (items : List String) : Json := .arr (items.map .str)

end Json

end PipelineSql
