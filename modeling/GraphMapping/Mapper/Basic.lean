import GraphMapping.Mapper.Loading
import GraphMapping.Settings
import GraphMapping.Statement.Lookup
import GraphMapping.Statement.Traversal
import GraphMapping.Work.Flush

/-!
# The mapper

The mapper ties everything together: schemas, stored entities, hooks, pending work and a
connection. Entities are created in memory, saved or deleted by request, and written when the work
is sent; others are loaded by id, over a relationship or by a query. Loading executes its statement
at once and touches neither the pending work nor the names handed out for it.

Every operation gives its outcome and the mapper after it.

## Main definitions

* `Mapper`: the state of a mapper; `σ` is the application's own.
* `Mapper.create`, `Mapper.save`, `Mapper.delete`, `Mapper.send`: writing.
* `Mapper.getById`, `Mapper.related`, `Mapper.query`: reading.
-/

namespace GraphMapping

/-- The state of a mapper, with the application's own state. -/
structure Mapper (σ : Type) where
  settings : MapperSettings
  catalog : Catalog
  store : Store
  hooks : Hooks σ
  work : Work
  connection : Connection
  app : σ

namespace Mapper

variable {σ : Type}

/-- A mapper without schemas, entities and hooks. -/
def new (settings : MapperSettings) (connection : Connection) (app : σ) : Mapper σ where
  settings
  catalog := .empty settings.allowUndefined
  store := .empty
  hooks := .empty
  work := .empty
  connection
  app

/-- Add a schema. -/
def register (mapper : Mapper σ) (schema : Schema) : Mapper σ :=
  { mapper with catalog := mapper.catalog.register schema }

/-! ### Writing -/

/-- The stored nodes that a new entity refers to exist. -/
def checkEndpoints (store : Store) (new : NewEntity) : Except MapperError Unit :=
  ([new.start, new.finish].filterMap fun e => e.bind Endpoint.key?).forM fun key =>
    (store.find key).map fun _ => ()

/-- Create an entity of a type in memory. -/
def create (mapper : Mapper σ) (typeName : String) (kind : EntityKind) (new : NewEntity) :
    Except MapperError (EntityKey × Mapper σ) := do
  checkEndpoints mapper.store new
  let e ← (mapper.catalog.resolve typeName kind).instantiate new
  let (key, store) := mapper.store.insert e
  return (key, { mapper with store })

/-- Request a save. -/
def save (mapper : Mapper σ) (m : Moment) (key : EntityKey) : Except MapperError (Mapper σ) :=
  (mapper.work.save m mapper.store key).map fun (work, store) => { mapper with work, store }

/-- Request a delete. -/
def delete (mapper : Mapper σ) (key : EntityKey) (detach : Bool) :
    Except MapperError (Mapper σ) :=
  (mapper.work.delete mapper.store key detach).map fun (work, store) => { mapper with work, store }

/-- The number of pending operations. -/
def pending (mapper : Mapper σ) : Nat := mapper.work.operations.length

/-- The statements that sending would execute, without executing them. -/
def queries (mapper : Mapper σ) (m : Moment) : Except MapperError (List Statement) × Mapper σ :=
  let (outcome, store) := mapper.work.preview m mapper.store
  (outcome, { mapper with store })

/-- Carry out the pending work, and tell what happened. -/
def sendJournaled (mapper : Mapper σ) (m : Moment) :
    (Except MapperError Response × List Event) × Mapper σ :=
  let ((outcome, st), work) := flush mapper.work mapper.hooks m mapper.store mapper.connection
    mapper.app
  ((outcome, st.journal),
    { mapper with work, store := st.store, connection := st.connection, app := st.app })

/-- Carry out the pending work. -/
def send (mapper : Mapper σ) (m : Moment) : Except MapperError Response × Mapper σ :=
  let ((outcome, _), mapper) := mapper.sendJournaled m
  (outcome, mapper)

/-! ### Reading -/

/-- What loading reads and changes. -/
def library (mapper : Mapper σ) : Library := ⟨mapper.catalog, mapper.work, mapper.store⟩

/-- Load returned values in order. -/
def loadAll (mapper : Mapper σ) (m : Moment) (values : List GraphValue) :
    Except MapperError (List EntityKey) × Mapper σ :=
  let (outcome, lib) := mapper.library.loadAll m [] values
  (outcome, { mapper with store := lib.store })

/-- Execute a statement. -/
def execute (mapper : Mapper σ) (statement : Statement) :
    Except MapperError QueryResult × Mapper σ :=
  let (outcome, connection) := mapper.connection.execute statement
  (outcome, { mapper with connection })

/-- The statement that looks up an entity by id. It is composed for an entity of the generic type,
apart from the store. -/
def lookupStatement (mapper : Mapper σ) (id : Int64) (kind : EntityKind) :
    Except MapperError Statement := do
  let probe ← (mapper.catalog.generic kind).instantiate { id := some id }
  let (key, scratch) := Store.empty.insert probe
  (composeLookup scratch .fresh key).outcome

/-- The values that a statement returned under its first variable. -/
def returnedValues (statement : Statement) (result : QueryResult) : List GraphValue :=
  result.column (statement.returns.head?.getD "")

/-- Load the entity with an id, if there is one. -/
def getById (mapper : Mapper σ) (m : Moment) (id : Int64) (kind : EntityKind) :
    Except MapperError (Option EntityKey) × Mapper σ :=
  match mapper.lookupStatement id kind with
  | .error e => (.error e, mapper)
  | .ok statement =>
    match mapper.execute statement with
    | (.error e, mapper) => (.error e, mapper)
    | (.ok result, mapper) =>
      match returnedValues statement result with
      | [] => (.ok none, mapper)
      | [value] =>
        let (outcome, mapper) := mapper.loadAll m [value]
        (outcome.map List.head?, mapper)
      | values => (.error (.ambiguousResult id values.length), mapper)

/-- Load the nodes at the other end of an entity's relationships. The variable `other` stands for
them in the statement. A variable that the entity is given on the way is taken back. -/
def related (mapper : Mapper σ) (m : Moment) (key : EntityKey) (traversal : Traversal)
    (other : String) : Except MapperError (List EntityKey) × Mapper σ :=
  let composed := composeTraversal mapper.store .fresh key traversal other
  let bound := (mapper.store.get? key).any (·.queryVariable.isSome)
  let store := if bound then composed.store else composed.store.modify key Entity.releaseVariable
  let mapper := { mapper with store }
  match composed.outcome with
  | .error e => (.error e, mapper)
  | .ok statement =>
    match mapper.execute statement with
    | (.error e, mapper) => (.error e, mapper)
    | (.ok result, mapper) => mapper.loadAll m (returnedValues statement result)

/-- The nodes of a row, followed by its relationships, each in order of variable. -/
def entitiesOf (row : Row) : List GraphValue :=
  let values := row.toList.map (·.2)
  values.filter GraphValue.isNode ++ values.filter GraphValue.isRelationship

/-- Execute a statement and load the entities of its result. -/
def query (mapper : Mapper σ) (m : Moment) (statement : Statement) :
    Except MapperError (QueryResult × List EntityKey) × Mapper σ :=
  match mapper.execute statement with
  | (.error e, mapper) => (.error e, mapper)
  | (.ok result, mapper) =>
    let (outcome, mapper) := mapper.loadAll m (result.rows.flatMap entitiesOf)
    (outcome.map (result, ·), mapper)

/-! ### Hooks -/

/-- Register a hook for a type and a phase. -/
def on (mapper : Mapper σ) (typeName : String) (phase : Phase) (call : Hook σ) :
    HookHandle × Mapper σ :=
  let (handle, hooks) := mapper.hooks.register typeName phase call
  (handle, { mapper with hooks })

/-- Register a handler for the changes of a field. -/
def onChanged (mapper : Mapper σ) (typeName field : String) (call : Handler σ) :
    HookHandle × Mapper σ :=
  let (handle, hooks) := mapper.hooks.onChanged typeName field call
  (handle, { mapper with hooks })

/-- Take a registration back. -/
def removeHook (mapper : Mapper σ) (handle : HookHandle) : Bool × Mapper σ :=
  let (found, hooks) := mapper.hooks.unregister handle
  (found, { mapper with hooks })

end Mapper

end GraphMapping
