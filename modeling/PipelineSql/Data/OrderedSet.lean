/-!
# Ordered sets of names

Names without repetition, in the order in which they were added. `toList` is the view; each
operation has a lemma that says what it does to membership.
-/

namespace PipelineSql

/-- Names in the order of their first insertion, each held once. -/
structure OrderedSet where
  toList : List String
  nodup : toList.Nodup
deriving DecidableEq

namespace OrderedSet

def empty : OrderedSet := ⟨[], List.nodup_nil⟩

instance : Inhabited OrderedSet := ⟨empty⟩

instance : Membership String OrderedSet := ⟨fun s a => a ∈ s.toList⟩

instance (a : String) (s : OrderedSet) : Decidable (a ∈ s) :=
  inferInstanceAs (Decidable (a ∈ s.toList))

theorem mem_def {a : String} {s : OrderedSet} : a ∈ s ↔ a ∈ s.toList := Iff.rfl

/-- Adds a name at the end unless it is there already. -/
def insert (s : OrderedSet) (a : String) : OrderedSet :=
  if h : a ∈ s.toList then s
  else ⟨s.toList ++ [a], by
    refine List.nodup_append.2 ⟨s.nodup, by simp, ?_⟩
    intro x hx y hy
    simp only [List.mem_singleton] at hy
    subst hy
    exact fun hxy => h (hxy ▸ hx)⟩

/-- Adds names one after another. -/
def extend (s : OrderedSet) (names : List String) : OrderedSet :=
  names.foldl insert s

/-- The names of a list, each at its first place. -/
def ofList (names : List String) : OrderedSet :=
  empty.extend names

/-- Keeps the names that pass a test, in order. -/
def filter (s : OrderedSet) (p : String → Bool) : OrderedSet :=
  ⟨s.toList.filter p, s.nodup.sublist List.filter_sublist⟩

def isEmpty (s : OrderedSet) : Bool := s.toList.isEmpty

@[simp] theorem toList_empty : empty.toList = [] := rfl

theorem toList_insert (s : OrderedSet) (a : String) :
    (s.insert a).toList = if a ∈ s.toList then s.toList else s.toList ++ [a] := by
  unfold insert
  split <;> simp_all

@[simp] theorem mem_insert {s : OrderedSet} {a b : String} :
    b ∈ s.insert a ↔ b ∈ s ∨ b = a := by
  rw [mem_def, mem_def, toList_insert]
  split
  · constructor
    · exact Or.inl
    · rintro (h | rfl) <;> assumption
  · simp

@[simp] theorem mem_extend {s : OrderedSet} {names : List String} {b : String} :
    b ∈ s.extend names ↔ b ∈ s ∨ b ∈ names := by
  induction names generalizing s with
  | nil => simp [extend]
  | cons a names ih =>
    have step : s.extend (a :: names) = (s.insert a).extend names := rfl
    rw [step, ih, mem_insert, List.mem_cons, or_assoc]

@[simp] theorem mem_ofList {names : List String} {b : String} :
    b ∈ ofList names ↔ b ∈ names := by
  rw [ofList, mem_extend, mem_def, toList_empty]
  simp

@[simp] theorem mem_filter {s : OrderedSet} {p : String → Bool} {b : String} :
    b ∈ s.filter p ↔ b ∈ s ∧ p b = true := by
  simp [mem_def, filter]

end OrderedSet

end PipelineSql
