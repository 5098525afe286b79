import GraphMapping.Statement.Delete
import GraphMapping.Work.Basic

/-!
# Previews

The statements that pending operations would execute, composed in order with a copy of the names.
Variables that entities are given on the way are taken back afterwards, whether composing succeeds
or not.

## Main definitions

* `composeOperation`: the statement of an operation, if it needs one.
* `Work.preview`: the statements of all pending operations.
-/

namespace GraphMapping

/-- The statement of an operation; deleting an entity that is not persisted needs none. -/
def composeOperation (m : Moment) (store : Store) (names : Names) (op : Operation) :
    Composed (Option Statement) :=
  match op.kind with
  | .save =>
    let composed := composeSave m store names [op.key]
    ⟨composed.outcome.map some, composed.store, composed.names⟩
  | .delete detach => composeDelete store names [op.key] detach

/-- The statements of operations in order, up to the first that cannot be composed. -/
def composeAll (m : Moment) (store : Store) (names : Names) :
    List Operation → Composed (List Statement)
  | [] => ⟨.ok [], store, names⟩
  | op :: rest =>
    let composed := composeOperation m store names op
    match composed.outcome with
    | .error e => ⟨.error e, composed.store, composed.names⟩
    | .ok statement =>
      let others := composeAll m composed.store composed.names rest
      ⟨others.outcome.map (statement.toList ++ ·), others.store, others.names⟩

/-- Take the variables back from the entities that had none in an earlier state of the store. -/
def Store.releaseUnbound (before after : Store) : Store :=
  ⟨(before.entities.zip after.entities).map fun (b, a) =>
    if b.queryVariable.isNone then a.releaseVariable else a⟩

/-- The statements of all pending operations, and the store after composing them. -/
def Work.preview (work : Work) (m : Moment) (store : Store) :
    Except MapperError (List Statement) × Store :=
  let composed := composeAll m store work.names work.operations
  (composed.outcome, store.releaseUnbound composed.store)

end GraphMapping
