import PipelineSql.Plan

/-!
# Sessions

Named queries that are built from one another. Stages are numbered as they are added, and two
queries share a stage exactly when its number is the same.
-/

namespace PipelineSql

/-- A query of a session, and the number of the stage that it ends in. Two queries share their last
stage exactly when these numbers are equal. -/
structure SessionQuery where
  state : QueryState
  stage : Nat

/-- Queries under names, built from one another. -/
structure Session where
  queries : List (String × SessionQuery) := []
  nextStage : Nat := 0

/-- Why a step of a session fails. -/
inductive SessionError where
  | unknownName (name : String)
  | query (error : Error)
deriving DecidableEq

namespace Session

def find (s : Session) (name : String) : Except SessionError SessionQuery :=
  match s.queries.lookup name with
  | some q => .ok q
  | none => .error (.unknownName name)

/-- Stores a query under a name, in place of an earlier one. -/
def store (s : Session) (name : String) (q : SessionQuery) (nextStage : Nat) : Session where
  queries := (name, q) :: s.queries
  nextStage := nextStage

/-- Stores a query that ends in a new stage. -/
def storeNew (s : Session) (name : String) (state : QueryState) : Session :=
  s.store name ⟨state, s.nextStage⟩ (s.nextStage + 1)

/-- Stores a query made from another by a verb. A verb that adds no stage shares the last one. -/
def storeFrom (s : Session) (name : String) (origin : SessionQuery) (state : QueryState) :
    Session :=
  if state.depth = origin.state.depth then s.store name ⟨state, origin.stage⟩ s.nextStage
  else s.storeNew name state

/-- Starts a query from a table. -/
def start (s : Session) (catalog : Catalog) (functions : FunctionTable)
    (name collection : String) : Except SessionError (Session × QueryState) := do
  let state ← (Request.run catalog functions ⟨collection, []⟩).mapError .query
  return (s.storeNew name state, state)

/-- Applies a verb to a query. Joins name two queries of the session and have a step of their
own. -/
def apply (s : Session) (name : String) (origin : SessionQuery) (verb : Verb) :
    Except SessionError (Session × QueryState) := do
  match verb with
  | .join _ _ _ => throw (.query (.notSupported .sessionJoin))
  | verb =>
    let state ← (verb.run {} origin.state.functions origin.state).mapError .query
    return (s.storeFrom name origin state, state)

def join (s : Session) (name : String) (left right : SessionQuery) (keys : JoinKeys)
    (how : Option String) : Except SessionError (Session × QueryState) := do
  let kind ← ((how.map JoinKind.parse).getD (.ok .inner)).mapError .query
  let state ← (left.state.join right.state keys kind).mapError .query
  return (s.storeFrom name left state, state)

end Session

end PipelineSql
