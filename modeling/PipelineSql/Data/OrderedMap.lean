/-!
# Ordered maps from names

Entries without repeated names. A name keeps the place of its first entry and takes the value
of its last one.
-/

namespace PipelineSql

variable {α : Type}

/-- Entries under distinct names, in the order in which the names were first inserted. -/
structure OrderedMap (α : Type) where
  entries : List (String × α)
  nodup : (entries.map Prod.fst).Nodup

instance [DecidableEq α] : DecidableEq (OrderedMap α) := fun a b =>
  decidable_of_iff (a.entries = b.entries) (by cases a; cases b; simp)

/-- Gives `key` a value in a list of entries: in place where the key stands already, else at
the end. -/
def putEntry (key : String) (value : α) : List (String × α) → List (String × α)
  | [] => [(key, value)]
  | (k, v) :: rest =>
    if k = key then (k, value) :: rest else (k, v) :: putEntry key value rest

theorem keys_putEntry (key : String) (value : α) (l : List (String × α)) :
    (putEntry key value l).map Prod.fst =
      if key ∈ l.map Prod.fst then l.map Prod.fst else l.map Prod.fst ++ [key] := by
  induction l with
  | nil => simp [putEntry]
  | cons e rest ih =>
    obtain ⟨k, v⟩ := e
    by_cases hk : k = key
    · simp [putEntry, hk]
    · have hk' : ¬key = k := fun h => hk h.symm
      simp only [putEntry, hk, if_false, List.map_cons, ih, List.mem_cons, hk', false_or]
      split <;> simp

namespace OrderedMap

/-- The map without entries. -/
def empty : OrderedMap α := ⟨[], List.nodup_nil⟩

instance : Inhabited (OrderedMap α) := ⟨empty⟩

/-- The names, in order. -/
def keys (m : OrderedMap α) : List String := m.entries.map Prod.fst

/-- The values, in the order of their names. -/
def values (m : OrderedMap α) : List α := m.entries.map Prod.snd

/-- The value under a name. -/
def get? (m : OrderedMap α) (key : String) : Option α := m.entries.lookup key

/-- Whether a name has a value. -/
def contains (m : OrderedMap α) (key : String) : Bool := decide (key ∈ m.keys)

/-- Whether there is no entry. -/
def isEmpty (m : OrderedMap α) : Bool := m.entries.isEmpty

/-- Sets a value: a known name keeps its place, a new one goes to the end. -/
def insert (m : OrderedMap α) (key : String) (value : α) : OrderedMap α :=
  ⟨putEntry key value m.entries, by
    rw [keys_putEntry]
    split
    · exact m.nodup
    · rename_i h
      refine List.nodup_append.2 ⟨m.nodup, by simp, ?_⟩
      intro x hx y hy
      simp only [List.mem_singleton] at hy
      subst hy
      exact fun hxy => h (hxy ▸ hx)⟩

/-- Inserts entries one after another. -/
def extend (m : OrderedMap α) (entries : List (String × α)) : OrderedMap α :=
  entries.foldl (fun m e => m.insert e.1 e.2) m

/-- The entries of a list: a repeated name keeps its first place and takes its last value. -/
def ofList (entries : List (String × α)) : OrderedMap α := empty.extend entries

/-- Keeps the entries that pass a test, in order. -/
def filter (m : OrderedMap α) (p : String → α → Bool) : OrderedMap α :=
  ⟨m.entries.filter fun e => p e.1 e.2, m.nodup.sublist (List.filter_sublist.map _)⟩

/-- Removes a name, keeping the order of the others. -/
def erase (m : OrderedMap α) (key : String) : OrderedMap α :=
  m.filter fun k _ => k ≠ key

@[simp] theorem keys_empty : (empty : OrderedMap α).keys = [] := rfl

theorem keys_insert (m : OrderedMap α) (key : String) (value : α) :
    (m.insert key value).keys = if key ∈ m.keys then m.keys else m.keys ++ [key] :=
  keys_putEntry key value m.entries

@[simp] theorem mem_keys_insert {m : OrderedMap α} {key k : String} {value : α} :
    k ∈ (m.insert key value).keys ↔ k ∈ m.keys ∨ k = key := by
  rw [keys_insert]
  split
  · constructor
    · exact Or.inl
    · rintro (h | rfl) <;> assumption
  · simp

theorem keys_nodup (m : OrderedMap α) : m.keys.Nodup := m.nodup

end OrderedMap

end PipelineSql
