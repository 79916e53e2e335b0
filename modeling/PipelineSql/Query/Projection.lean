import PipelineSql.Query.State

/-!
# Choosing and renaming columns

A selection is an ordered map from output names to source columns, built up argument by argument.
-/

namespace PipelineSql

open Sql (Ordered Select)

/-- One argument of `select`. -/
inductive Selector where
  /-- Keeps columns. -/
  | keep (names : List String)
  /-- Leaves columns out. -/
  | drop (names : List String)
  /-- Keeps a column under a new name. -/
  | relabel (new old : String)

namespace Selector

/-- A name that must be among the columns. -/
def known (available : List String) (name : String) : Except Error String :=
  if name ∈ available then .ok name else .error (.unknownColumn name available)

/-- The position of the bound of a run, which is a column or a position. -/
def position (available : List String) : ColumnExpr → Except Error Nat
  | .literal (.int i) =>
    if 0 ≤ i.toInt ∧ i.toInt.toNat < available.length then .ok i.toInt.toNat
    else .error (.invalidVerb (.noColumnAt i))
  | e =>
    match e.simpleName? with
    | some name => (known available name).map available.idxOf
    | none => .error (.invalidVerb (.notABound e))

/-- The columns from one bound to another, both included. A run without a bound goes to the end of
the table, and one whose start lies after its stop is empty. -/
def run (available : List String) (start stop : Option ColumnExpr) :
    Except Error (List String) := do
  let first ← match start with
    | none => .ok 0
    | some e => position available e
  let last ← match stop with
    | none => .ok (available.length - 1)
    | some e => position available e
  if last < first then return []
  else if last < available.length then return (available.drop first).take (last + 1 - first)
  else throw (.runOutOfBounds (last + 1) available.length)

/-- Reads an argument of `select`: a column, a run of columns, a negated argument for an exclusion,
or an equation between a new name and an old one. -/
def parse (available : List String) : ColumnExpr → Except Error Selector
  | .index .reference (.slice start stop) => (run available start stop).map .keep
  | .call .negate [arg] [] => do
    match ← parse available arg with
    | .keep names => return .drop names
    | _ => throw (.invalidVerb (.notASelector (.call .negate [arg] [])))
  | .call .equal [new, old] [] =>
    match new.simpleName?, old.simpleName? with
    | some n, some o => (known available o).map (.relabel n)
    | _, _ => .error (.invalidVerb (.notASelector (.call .equal [new, old] [])))
  | e =>
    match e.simpleName? with
    | some name => (known available name).map fun n => .keep [n]
    | none => .error (.invalidVerb (.notASelector e))

/-- Whether an argument leaves columns out. -/
def isDrop : Selector → Bool
  | .drop _ => true
  | _ => false

/-- Applies an argument to a selection, which maps output names to source columns. -/
def apply (selection : OrderedMap String) : Selector → OrderedMap String
  | .keep names => selection.extend (names.map fun n => (n, n))
  | .drop names => selection.filter fun _ source => source ∉ names
  | .relabel new old => (selection.erase old).insert new old

/-- The selection of a list of arguments. When all of them leave columns out, it starts from all
columns. -/
def selection (available : List String) (selectors : List Selector) : OrderedMap String :=
  selectors.foldl apply
    (if selectors.all isDrop then .ofList (available.map fun n => (n, n)) else .empty)

end Selector

/-- The first output name of a source column. -/
def outputOf? (selection : OrderedMap String) (source : String) : Option String :=
  (selection.entries.find? fun e => e.2 = source).map Prod.fst

/-- Puts the grouping columns that a selection lacks before it. -/
def withGroups (selection : OrderedMap String) (groups : List String) : OrderedMap String :=
  let missing := groups.filter fun g => (outputOf? selection g).isNone
  (OrderedMap.ofList (missing.map fun g => (g, g))).extend selection.entries

/-- The new names of columns, as a function that leaves the others alone. -/
def newName (renames : OrderedMap String) (name : String) : String :=
  (renames.get? name).getD name

/-- From source columns to their new names, where a selection changes them. -/
def selectionRenames (selection : OrderedMap String) : OrderedMap String :=
  .ofList ((selection.entries.filter fun e => e.1 ≠ e.2).map fun e => (e.2, e.1))

/-- Renames the columns of ordering terms. -/
def renameOrder (renames : OrderedMap String) (order : List (Ordered ColumnExpr)) :
    List (Ordered ColumnExpr) :=
  order.map fun term => ⟨term.target.rename (newName renames), term.direction⟩

/-- The first name that stands in a list for the second time. -/
def firstRepeated? : List String → List String → Option String
  | _, [] => none
  | seen, n :: rest => if n ∈ seen then some n else firstRepeated? (n :: seen) rest

namespace QueryState

/-- Keeps, leaves out, reorders or renames columns. Grouping columns always stay, under their new
names, and so do the ordering terms all of whose columns are selected. Narrowing distinct rows
would change which rows are distinct, so these become a subquery first. -/
def select (s : QueryState) (columns : List ColumnExpr) : Except Error QueryState := do
  let available := s.columnNames
  let selectors ← columns.mapM fun e => Selector.parse available e.shape
  let chosen := Selector.selection available selectors
  let groups := OrderedSet.ofList (s.groups.toList.map fun g => (outputOf? chosen g).getD g)
  let selection := withGroups chosen s.groups.toList
  if selection.isEmpty then throw (.invalidVerb .nothingSelected)
  let order := renameOrder (selectionRenames selection)
    (s.order.filter fun term => term.target.reads.all fun n => n ∈ selection.values)
  let (base, aliases) := wrapIf s.last.distinct s.last s.aliases
  let scope := Scope.ofSelectList base
  let list ← selection.entries.mapM fun e => do return (e.1, ← scope.lookup e.2)
  return s.pushWith { base with columns := list } aliases groups order

/-- Reads the arguments of `rename` into a map from old names to new ones. -/
def parseRenames (available : List String) (columns : List (String × ColumnExpr)) :
    Except Error (OrderedMap String) :=
  columns.foldlM (fun renames c =>
    match c.2.shape.simpleName? with
    | some old => (Selector.known available old).map fun o => renames.insert o c.1
    | none => .error (.invalidVerb (.notARenamedColumn c.2.shape))) .empty

/-- Renames columns in place. -/
def rename (s : QueryState) (columns : List (String × ColumnExpr)) : Except Error QueryState := do
  let renames ← parseRenames s.columnNames columns
  let list := s.last.columns.map fun c => (newName renames c.1, c.2)
  if let some name := firstRepeated? [] (list.map Prod.fst) then
    throw (.invalidVerb (.nameTakenTwice name))
  return s.pushWith { s.last with columns := list } s.aliases
    (.ofList (s.groups.toList.map (newName renames))) (renameOrder renames s.order)

end QueryState

end PipelineSql
