import GraphMapping.Entity.Store
import GraphMapping.Statement.Names

/-!
# Pending work

Saves and deletes are only noted when they are requested, and carried out together later. Requests
for the same entity replace each other, and so do requests for entities that are equal as data. A
relationship is written together with its stored ends, so saving it absorbs the pending saves of its
ends; they are remembered, and come back as saves of their own when the relationship's save is
replaced by one that does not cover them, or gives way to a delete.

## Main definitions

* `Operation`: a pending save or delete.
* `Work`: the pending operations and the names handed out for them.
* `Work.save`, `Work.delete`: request a save or a delete.
-/

namespace GraphMapping

/-- What is to be done with an entity. -/
inductive OperationKind where
  | save
  /-- Delete; `detach` was asked for. -/
  | delete (detach : Bool)
deriving DecidableEq, Repr

/-- How far an operation has come. -/
inductive OperationState where
  | scheduled
  | beforeRun
  | queried
  | afterRun
  | finalized
deriving DecidableEq, Repr

/-- A pending save or delete. -/
structure Operation where
  key : EntityKey
  kind : OperationKind
  state : OperationState := .scheduled
  /-- Entities whose own saves this save stands for. -/
  absorbed : List EntityKey := []
deriving DecidableEq, Repr

/-- The pending operations in order, and the names handed out for them. -/
structure Work where
  operations : List Operation := []
  names : Names := .fresh

namespace Work

/-- Nothing is pending. -/
def empty : Work := {}

instance : Inhabited Work := ⟨empty⟩

/-- An operation on the entity is pending, or a pending save stands for its save. -/
def covers (work : Work) (key : EntityKey) : Bool :=
  work.operations.any fun op => op.key = key || key ∈ op.absorbed

/-- Give a stored entity a variable. -/
def define (work : Work) (store : Store) (key : EntityKey) : Work × Store :=
  match store.get? key with
  | none => (work, store)
  | some e =>
    let (_, e, names) := work.names.define e
    ({ work with names }, store.modify key fun _ => e)

/-- Schedule saves of the given stored entities, apart from those that an operation is pending
for. -/
def reschedule : Work → Store → List EntityKey → Work × Store
  | work, store, [] => (work, store)
  | work, store, key :: rest =>
    if work.operations.any (·.key = key) || (store.get? key).isNone then
      reschedule work store rest
    else
      let (work, store) := work.define store key
      reschedule { work with operations := work.operations ++ [{ key, kind := .save }] } store rest

/-- A pending operation gives way to a save of the entity `e` with the given ends: it is on the same
entity, on an equal one, or a save of an end. -/
def givesWay (m : Moment) (store : Store) (key : EntityKey) (e : Entity) (ends : List EntityKey)
    (op : Operation) : Bool :=
  op.key = key || (store.get? op.key).any (Entity.sameAs m · e) ||
    (op.kind = .save && op.key ∈ ends)

/-- The saves that an operation stands for and that a save with the given ends covers. -/
def coveredBy (ends : List EntityKey) (op : Operation) : List EntityKey :=
  ((if op.kind = .save then [op.key] else []) ++ op.absorbed).filter (· ∈ ends)

/-- Request a save. An unknown entity changes nothing. -/
def save (work : Work) (m : Moment) (store : Store) (key : EntityKey) :
    Except MapperError (Work × Store) :=
  match store.get? key with
  | none => .error (.unknownEntity key)
  | some e =>
    let ends := e.endpointKeys
    let (removed, kept) := work.operations.partition (givesWay m store key e ends)
    let absorbed := (removed.flatMap (coveredBy ends)).eraseDups
    let orphans := (removed.flatMap (·.absorbed)).filter fun k => k ∉ ends && k ≠ key
    let (work, store) := reschedule { work with operations := kept } store orphans
    let (work, store) := (key :: ends).foldl (fun (work, store) k => work.define store k)
      (work, store)
    .ok ({ work with operations := work.operations ++ [{ key, kind := .save, absorbed }] }, store)

/-- Request a delete. An unknown entity changes nothing. -/
def delete (work : Work) (store : Store) (key : EntityKey) (detach : Bool) :
    Except MapperError (Work × Store) :=
  match store.get? key with
  | none => .error (.unknownEntity key)
  | some _ =>
    let (work, store) := work.define store key
    let operations := work.operations.map fun op =>
      { op with absorbed := op.absorbed.filter (· ≠ key) }
    let (removed, kept) := operations.partition (·.key = key)
    let (work, store) := reschedule { work with operations := kept } store
      (removed.flatMap (·.absorbed))
    .ok ({ work with operations := work.operations ++ [{ key, kind := .delete detach }] }, store)

/-- Forget everything: nothing is pending, no name is handed out, and no entity has a variable. -/
def reset (store : Store) : Work × Store := (empty, store.releaseVariables)

end Work

end GraphMapping
