import PipelineSql.Literal
import PipelineSql.Operation

/-!
# Column expressions

Expressions are plain trees. Their parts sit in lists, pairs and options, so every traversal
comes with one function for each of these, by structural recursion.
-/

namespace PipelineSql

/-- An expression over the columns of a query, independent of any SQL dialect. It is built against
a placeholder for the current table: the column `x` is the attribute `x` of the placeholder. -/
inductive ColumnExpr where
  /-- The current table. -/
  | reference
  /-- A named part of another expression. -/
  | attr (parent : ColumnExpr) (name : String)
  /-- An operation applied to positional and keyword arguments, the latter sorted by keyword. -/
  | call (operation : Operation) (args : List ColumnExpr) (keywords : List (String × ColumnExpr))
  /-- A subscript. -/
  | index (parent key : ColumnExpr)
  /-- A run from one bound to another, which only means something inside a selection. -/
  | slice (start stop : Option ColumnExpr)
  | literal (value : Literal)

instance : Inhabited ColumnExpr := ⟨.reference⟩

namespace ColumnExpr

mutual

/-- Whether two expressions are the same tree. -/
def same : ColumnExpr → ColumnExpr → Bool
  | .reference, .reference => true
  | .attr p n, .attr q m => p.same q && n = m
  | .call o as ks, .call o' as' ks' => o = o' && sameArgs as as' && sameKeywords ks ks'
  | .index p k, .index q l => p.same q && k.same l
  | .slice a b, .slice c d => sameBound a c && sameBound b d
  | .literal v, .literal w => v = w
  | _, _ => false
termination_by structural a => a

def sameArgs : List ColumnExpr → List ColumnExpr → Bool
  | [], [] => true
  | a :: as, b :: bs => a.same b && sameArgs as bs
  | _, _ => false
termination_by structural a => a

def sameKeywords : List (String × ColumnExpr) → List (String × ColumnExpr) → Bool
  | [], [] => true
  | (k, a) :: as, (l, b) :: bs => k = l && a.same b && sameKeywords as bs
  | _, _ => false
termination_by structural a => a

def sameBound : Option ColumnExpr → Option ColumnExpr → Bool
  | none, none => true
  | some a, some b => a.same b
  | _, _ => false
termination_by structural a => a

end

mutual

theorem eq_of_same : {a b : ColumnExpr} → a.same b = true → a = b
  | .reference, .reference, _ => rfl
  | .attr p n, .attr q m, h => by
    simp only [same, Bool.and_eq_true, decide_eq_true_eq] at h
    rw [eq_of_same h.1, h.2]
  | .call o as ks, .call o' as' ks', h => by
    simp only [same, Bool.and_eq_true, decide_eq_true_eq] at h
    rw [h.1.1, eq_of_sameArgs h.1.2, eq_of_sameKeywords h.2]
  | .index p k, .index q l, h => by
    simp only [same, Bool.and_eq_true] at h
    rw [eq_of_same h.1, eq_of_same h.2]
  | .slice a b, .slice c d, h => by
    simp only [same, Bool.and_eq_true] at h
    rw [eq_of_sameBound h.1, eq_of_sameBound h.2]
  | .literal v, .literal w, h => by
    simp only [same, decide_eq_true_eq] at h
    rw [h]

theorem eq_of_sameArgs : {a b : List ColumnExpr} → sameArgs a b = true → a = b
  | [], [], _ => rfl
  | a :: as, b :: bs, h => by
    simp only [sameArgs, Bool.and_eq_true] at h
    rw [eq_of_same h.1, eq_of_sameArgs h.2]

theorem eq_of_sameKeywords :
    {a b : List (String × ColumnExpr)} → sameKeywords a b = true → a = b
  | [], [], _ => rfl
  | (k, a) :: as, (l, b) :: bs, h => by
    simp only [sameKeywords, Bool.and_eq_true, decide_eq_true_eq] at h
    rw [h.1.1, eq_of_same h.1.2, eq_of_sameKeywords h.2]

theorem eq_of_sameBound : {a b : Option ColumnExpr} → sameBound a b = true → a = b
  | none, none, _ => rfl
  | some _, some _, h => congrArg some (eq_of_same h)

end

mutual

theorem same_self : (a : ColumnExpr) → a.same a = true
  | .reference => rfl
  | .attr p n => by simp [same, same_self p]
  | .call o as ks => by simp [same, sameArgs_self as, sameKeywords_self ks]
  | .index p k => by simp [same, same_self p, same_self k]
  | .slice a b => by simp [same, sameBound_self a, sameBound_self b]
  | .literal v => by simp [same]

theorem sameArgs_self : (a : List ColumnExpr) → sameArgs a a = true
  | [] => rfl
  | a :: as => by simp [sameArgs, same_self a, sameArgs_self as]

theorem sameKeywords_self : (a : List (String × ColumnExpr)) → sameKeywords a a = true
  | [] => rfl
  | (k, a) :: as => by simp [sameKeywords, same_self a, sameKeywords_self as]

theorem sameBound_self : (a : Option ColumnExpr) → sameBound a a = true
  | none => rfl
  | some a => same_self a

end

instance : DecidableEq ColumnExpr := fun a b =>
  decidable_of_iff (a.same b = true) ⟨eq_of_same, fun h => h ▸ same_self a⟩

/-- The column `name` of the current table. -/
def column (name : String) : ColumnExpr := .attr .reference name

/-- The name of the single column that an expression stands for: an attribute of the table, a
subscript of the table by a text, or a text by itself. -/
def simpleName? : ColumnExpr → Option String
  | .attr .reference name => some name
  | .index .reference (.literal (.str name)) => some name
  | .literal (.str name) => some name
  | _ => none

mutual

/-- The names of the columns that an expression reads, in order of appearance. -/
def reads : ColumnExpr → List String
  | .reference => []
  | .attr .reference name => [name]
  | .attr parent _ => parent.reads
  | .call _ args keywords => readsOfArgs args ++ readsOfKeywords keywords
  | .index .reference (.literal (.str name)) => [name]
  | .index parent key => parent.reads ++ key.reads
  | .slice start stop => readsOfBound start ++ readsOfBound stop
  | .literal _ => []

def readsOfArgs : List ColumnExpr → List String
  | [] => []
  | a :: as => a.reads ++ readsOfArgs as

def readsOfKeywords : List (String × ColumnExpr) → List String
  | [] => []
  | (_, a) :: as => a.reads ++ readsOfKeywords as

def readsOfBound : Option ColumnExpr → List String
  | none => []
  | some a => a.reads

end

mutual

/-- Rebuilds an expression from its leaves up: `f` sees every node after its parts. -/
def mapNodes (f : ColumnExpr → ColumnExpr) : ColumnExpr → ColumnExpr
  | .reference => f .reference
  | .attr parent name => f (.attr (parent.mapNodes f) name)
  | .call operation args keywords =>
    f (.call operation (mapArgs f args) (mapKeywords f keywords))
  | .index parent key => f (.index (parent.mapNodes f) (key.mapNodes f))
  | .slice start stop => f (.slice (mapBound f start) (mapBound f stop))
  | .literal value => f (.literal value)

def mapArgs (f : ColumnExpr → ColumnExpr) : List ColumnExpr → List ColumnExpr
  | [] => []
  | a :: as => a.mapNodes f :: mapArgs f as

def mapKeywords (f : ColumnExpr → ColumnExpr) :
    List (String × ColumnExpr) → List (String × ColumnExpr)
  | [] => []
  | (k, a) :: as => (k, a.mapNodes f) :: mapKeywords f as

def mapBound (f : ColumnExpr → ColumnExpr) : Option ColumnExpr → Option ColumnExpr
  | none => none
  | some a => some (a.mapNodes f)

end

/-- One step of `shape`, at a node whose parts are shaped. -/
def shapeNode : ColumnExpr → ColumnExpr
  | .attr .reference name => .attr .reference name
  | .attr parent name => if name = "str" ∨ name = "dt" then parent else .attr parent name
  | .index .reference (.literal (.str name)) => .attr .reference name
  | e => e

/-- The form in which expressions are compiled: a subscript of the table by a text becomes a
column, and the accessors `str` and `dt` of anything but the table are dropped. -/
def shape (e : ColumnExpr) : ColumnExpr := e.mapNodes shapeNode

/-- One step of `rename`. -/
def renameNode (renames : String → String) : ColumnExpr → ColumnExpr
  | .attr .reference name => .attr .reference (renames name)
  | e => e

/-- Points the columns of an expression at their new names. -/
def rename (renames : String → String) (e : ColumnExpr) : ColumnExpr :=
  e.mapNodes (renameNode renames)

end ColumnExpr

end PipelineSql
