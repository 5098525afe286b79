import GraphMapping.Work.Basic

/-!
# Obligations

Carrying out an operation touches the entity it is on and, for a save, the stored ends of a
relationship. Each of them runs through one family of phases: it is created, updated or deleted.

## Main definitions

* `Family`: creation, update or deletion, with the phases before and after.
* `Obligation`: an entity and its family.
* `obligations`: the obligations of an operation, in order.
-/

namespace GraphMapping

/-- What happens to an entity. -/
inductive Family where
  | create
  | update
  | delete
deriving DecidableEq, Repr

/-- The phase before the statement. -/
def Family.before : Family → Phase
  | create => .beforeCreate
  | update => .beforeUpdate
  | delete => .beforeDelete

/-- The phase after the statement. -/
def Family.after : Family → Phase
  | create => .afterCreate
  | update => .afterUpdate
  | delete => .afterDelete

/-- An entity that an operation touches, and what happens to it. -/
structure Obligation where
  key : EntityKey
  family : Family
deriving DecidableEq, Repr

/-- Saving an entity updates it if it is persisted and creates it otherwise. -/
def saveObligation (store : Store) (key : EntityKey) : Except MapperError Obligation :=
  (store.find key).map fun e => ⟨key, if e.id.isSome then .update else .create⟩

/-- The obligations of an operation. The ends of a relationship come before it. -/
def obligations (store : Store) (op : Operation) : Except MapperError (List Obligation) :=
  match store.find op.key with
  | .error e => .error e
  | .ok e =>
    match op.kind with
    | .delete _ => .ok [⟨op.key, .delete⟩]
    | .save => (e.endpointKeys ++ [op.key]).mapM (saveObligation store)

end GraphMapping
