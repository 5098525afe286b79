import GraphMapping.Statement.Save

/-!
# Delete statements

Every persisted entity of the batch is matched by its id and deleted; the others are passed over,
and a batch without persisted entities needs no statement. Nodes are deleted together with the
relationships that are attached to them, whether that was asked for or not: a node that still has
relationships cannot be deleted otherwise, and a relationship has nothing to be detached from.

## Main definitions

* `Deletion`, `Deletion.toStatement`: what is deleted, as data and as a statement.
* `composeDelete`: the statement that deletes a batch.
-/

namespace GraphMapping

/-- The entities to delete: how each is matched and which id it must have. -/
structure Deletion where
  targets : List (Pattern × IdCondition) := []
  /-- One of the targets is a node. -/
  hasNode : Bool := false
  params : Dict Value := .empty

namespace Deletion

/-- The text of the statement. -/
def write (deletion : Deletion) : String :=
  " ".intercalate (deletion.targets.map fun (pattern, condition) =>
    "MATCH " ++ pattern.write ++ " WHERE " ++ condition.write) ++
  (if deletion.hasNode then " DETACH DELETE " else " DELETE ") ++
  ", ".intercalate (deletion.targets.map fun (_, condition) => condition.name)

/-- The statement, unless there is nothing to delete. It returns nothing. -/
def toStatement? (deletion : Deletion) : Option Statement :=
  if deletion.targets = [] then none else some ⟨deletion.write, deletion.params, []⟩

/-- Add a persisted entity. -/
def add (deletion : Deletion) (name param : String) (e : Entity) (id : Int64) : Deletion :=
  let pattern : Pattern :=
    if e.isNode then .node ⟨name, [], []⟩ else .betweenAny ⟨name, e.labels, []⟩
  { targets := deletion.targets ++ [(pattern, ⟨name, param⟩)]
    hasNode := deletion.hasNode || e.isNode
    params := deletion.params.insert param (.integer id) }

end Deletion

/-- Collect the persisted entities among the given keys. -/
def collectDeletion (store : Store) (names : Names) (deletion : Deletion) :
    List EntityKey → Composed Deletion
  | [] => ⟨.ok deletion, store, names⟩
  | key :: rest =>
    match store.get? key with
    | none => ⟨.error (.compilation (.unknownEntity key)), store, names⟩
    | some e =>
      let (name, e, names) := names.define e
      let store := store.modify key fun _ => e
      match e.id with
      | none => collectDeletion store names deletion rest
      | some id =>
        let (param, names) := names.paramFor e "id"
        collectDeletion store names (deletion.add name param e id) rest

/-- The statement that deletes a batch, if there is something to delete. The request to detach is
taken note of in a log only. -/
def composeDelete (store : Store) (names : Names) (keys : List EntityKey) (_detach : Bool) :
    Composed (Option Statement) :=
  let composed := collectDeletion store names {} keys
  ⟨composed.outcome.map Deletion.toStatement?, composed.store, composed.names⟩

end GraphMapping
