import GraphMapping.Connection.Basic
import GraphMapping.Lifecycle.Hooks
import GraphMapping.Work.Obligation
import GraphMapping.Work.Preview

/-!
# Flushes

A flush carries out the pending operations in order. For each, the hooks before it run, one
statement is composed and executed, and then every entity it touched is brought in line with the
result. The first failure ends the flush. However it ends, nothing is pending afterwards and no
entity keeps its query variable.

An entity that was created takes on the id and the properties that came back before its hooks see
it; an entity that was updated shows its hooks the changes first; an entity that was deleted loses
its id when its hooks have run. Where nothing came back for an entity, its current data becomes the
baseline.

A journal tells what happened in which order.

## Main definitions

* `Event`: an entry of the journal.
* `FlushState`: everything that a flush changes.
* `Response`: what a successful flush reports.
* `runOperation`: carry out one operation.
* `flush`: carry out all of them.
-/

namespace GraphMapping

variable {σ : Type}

/-- What happens during a flush. -/
inductive Event where
  /-- The step of an entity before or after the statement begins. -/
  | step (key : EntityKey) (phase : Phase)
  /-- A hook or handler is called. -/
  | called (handle : HookHandle)
  /-- A statement is executed. -/
  | executed (statement : Statement)

/-- Everything that a flush changes. -/
structure FlushState (σ : Type) where
  store : Store
  names : Names
  connection : Connection
  /-- The application's own state. -/
  app : σ
  /-- What has happened so far, in order. -/
  journal : List Event := []

/-- What a successful flush reports. -/
structure Response where
  /-- The executed statements. -/
  statements : List Statement := []
  /-- The rows of all of them. -/
  result : QueryResult := .empty
  /-- The operations, all of them finalized. -/
  operations : List Operation := []

/-- The outcome of a step and the state after it. -/
abbrev FlushStep (σ α : Type) := Except MapperError α × FlushState σ

namespace FlushState

/-- Note an event. -/
def note (st : FlushState σ) (event : Event) : FlushState σ :=
  { st with journal := st.journal ++ [event] }

/-- Change a stored entity. -/
def modify (st : FlushState σ) (key : EntityKey) (f : Entity → Entity) : FlushState σ :=
  { st with store := st.store.modify key f }

/-- Take over what running hooks on an entity led to. -/
def afterHooks (st : FlushState σ) (key : EntityKey) (run : HookRun σ) : FlushStep σ Unit :=
  (run.outcome,
    { st with
      store := st.store.modify key fun _ => run.entity
      app := run.state
      journal := st.journal ++ run.called.map .called })

/-- Run the hooks of a phase on a stored entity. -/
def runHooks (st : FlushState σ) (hooks : Hooks σ) (m : Moment) (phase : Phase) (key : EntityKey)
    (result : Option QueryResult) : FlushStep σ Unit :=
  match st.store.get? key with
  | none => (.error (.unknownEntity key), st)
  | some e => st.afterHooks key (hooks.run m phase e result st.app)

/-- Dispatch the changes of a stored entity, if there are any. -/
def dispatchChanges (st : FlushState σ) (hooks : Hooks σ) (m : Moment) (key : EntityKey)
    (result : QueryResult) : FlushStep σ Unit :=
  match st.store.get? key with
  | none => (.error (.unknownEntity key), st)
  | some e =>
    let changes := e.changed m
    if changes.isEmpty then (.ok (), st)
    else st.afterHooks key (hooks.dispatch m e changes (some result) st.app)

end FlushState

/-! ### Bringing entities in line with a result -/

/-- An entity in line with a result: what came back under its variable is loaded and gives it an id;
otherwise its data becomes the baseline. -/
def Entity.refresh (e : Entity) (m : Moment) (result : QueryResult) : Entity :=
  match (e.queryVariable.bind result.first?).bind GraphValue.entityParts? with
  | some (id, properties) => (e.setId id).load properties.toList
  | none => e.commit m

/-- The step of a touched entity after the statement. -/
def afterStep (hooks : Hooks σ) (m : Moment) (result : QueryResult) (ob : Obligation)
    (st : FlushState σ) : FlushStep σ Unit :=
  let st := st.note (.step ob.key ob.family.after)
  match ob.family with
  | .create =>
    (st.modify ob.key (Entity.refresh · m result)).runHooks hooks m .afterCreate ob.key
      (some result)
  | .update =>
    match st.dispatchChanges hooks m ob.key result with
    | (.error e, st) => (.error e, st)
    | (.ok (), st) =>
      match st.runHooks hooks m .afterUpdate ob.key (some result) with
      | (.error e, st) => (.error e, st)
      | (.ok (), st) => (.ok (), st.modify ob.key (Entity.refresh · m result))
  | .delete =>
    match st.runHooks hooks m .afterDelete ob.key (some result) with
    | (.error e, st) => (.error e, st)
    | (.ok (), st) => (.ok (), st.modify ob.key Entity.clearId)

/-- The step of a touched entity before the statement. -/
def beforeStep (hooks : Hooks σ) (m : Moment) (ob : Obligation) (st : FlushState σ) :
    FlushStep σ Unit :=
  (st.note (.step ob.key ob.family.before)).runHooks hooks m ob.family.before ob.key none

/-- Take steps in order up to the first failure. -/
def eachObligation (step : Obligation → FlushState σ → FlushStep σ Unit) :
    List Obligation → FlushState σ → FlushStep σ Unit
  | [], st => (.ok (), st)
  | ob :: rest, st =>
    match step ob st with
    | (.error e, st) => (.error e, st)
    | (.ok (), st) => eachObligation step rest st

/-! ### Operations -/

/-- Execute the statement of an operation, if it has one. -/
def executeStatement (statement : Option Statement) (st : FlushState σ) :
    FlushStep σ QueryResult :=
  match statement with
  | none => (.ok .empty, st)
  | some s =>
    let (outcome, connection) := st.connection.execute s
    (outcome, { st with connection }.note (.executed s))

/-- Take the variables back from the touched entities. -/
def releaseTouched (obs : List Obligation) (st : FlushState σ) : FlushState σ :=
  obs.foldl (fun st ob => st.modify ob.key Entity.releaseVariable) st

/-- Carry out an operation: the statement that was executed, if any, and its result. -/
def runOperation (hooks : Hooks σ) (m : Moment) (op : Operation) (st : FlushState σ) :
    FlushStep σ (Option Statement × QueryResult) :=
  match obligations st.store op with
  | .error e => (.error e, st)
  | .ok obs =>
    match eachObligation (beforeStep hooks m) obs st with
    | (.error e, st) => (.error e, st)
    | (.ok (), st) =>
      let composed := composeOperation m st.store st.names op
      let st := { st with store := composed.store, names := composed.names }
      match composed.outcome with
      | .error e => (.error e, st)
      | .ok statement =>
        match executeStatement statement st with
        | (.error e, st) => (.error e, st)
        | (.ok result, st) =>
          match eachObligation (afterStep hooks m result) obs st with
          | (.error e, st) => (.error e, st)
          | (.ok (), st) => (.ok (statement, result), releaseTouched obs st)

/-- A response with one more finished operation. -/
def Response.add (response : Response) (op : Operation) (statement : Option Statement)
    (result : QueryResult) : Response where
  statements := response.statements ++ statement.toList
  result := response.result ++ result
  operations := response.operations ++ [{ op with state := .finalized }]

/-- Carry out operations in order up to the first failure. -/
def runOperations (hooks : Hooks σ) (m : Moment) :
    List Operation → Response → FlushState σ → FlushStep σ Response
  | [], response, st => (.ok response, st)
  | op :: rest, response, st =>
    match runOperation hooks m op st with
    | (.error e, st) => (.error e, st)
    | (.ok (statement, result), st) =>
      runOperations hooks m rest (response.add op statement result) st

/-- Carry out the pending operations. Afterwards nothing is pending. -/
def flush (work : Work) (hooks : Hooks σ) (m : Moment) (store : Store) (connection : Connection)
    (app : σ) : FlushStep σ Response × Work :=
  let (outcome, st) := runOperations hooks m work.operations {}
    { store, names := work.names, connection, app }
  let (work, store) := Work.reset st.store
  ((outcome, { st with store, names := work.names }), work)

end GraphMapping
