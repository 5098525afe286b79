import GraphMapping.Connection.Result
import GraphMapping.Schema
import GraphMapping.Work.Basic

/-!
# Loading entities

Nodes and relationships that the database returns become stored entities. The store is an identity
map: what is stored already under an id is refreshed and not stored again, and not even refreshed
while there is unsaved work on it.

The type of a loaded node is spelled by its labels in order; the type of a loaded relationship is
its own. The ends of a relationship refer to stored nodes where there are any.

## Main definitions

* `Library`: what loading reads and changes.
* `Library.load`: load a returned value.
* `Library.loadAll`: load several, and list the keys without repetition.
-/

namespace GraphMapping

/-- The schemas, the store and the pending work that loading depends on. -/
structure Library where
  catalog : Catalog
  work : Work
  store : Store

namespace Library

/-- There is unsaved work on the stored entity. -/
def isProtected (lib : Library) (m : Moment) (key : EntityKey) (e : Entity) : Bool :=
  lib.work.covers key || !(e.changed m).isEmpty || !e.deleted.isEmpty

/-- Load the properties of an entity that is stored already, unless there is unsaved work on it. -/
def refresh (lib : Library) (m : Moment) (key : EntityKey) (properties : Dict Value) : Library :=
  match lib.store.get? key with
  | none => lib
  | some e =>
    if lib.isProtected m key e then lib
    else { lib with store := lib.store.modify key (Entity.load · properties.toList) }

/-- Store a new entity made after a schema, with loaded properties. -/
def adopt (lib : Library) (schema : Schema) (new : NewEntity) (properties : Dict Value) :
    Except MapperError (EntityKey × Library) :=
  (schema.instantiate new).map fun e =>
    let (key, store) := lib.store.insert (e.load properties.toList)
    (key, { lib with store })

/-- The type name that the labels of a node spell, repetitions and all. -/
def nodeTypeName (labels : List String) : String :=
  if labels = [] then genericNodeName
  else "_".intercalate (labels.mergeSort (fun a b => decide (a ≤ b)))

/-- Load a node. -/
def loadNode (lib : Library) (m : Moment) (raw : RawNode) :
    Except MapperError (EntityKey × Library) :=
  match lib.store.findById? raw.id .node with
  | some key => .ok (key, lib.refresh m key raw.properties)
  | none =>
    lib.adopt (lib.catalog.resolve (nodeTypeName raw.labels) .node)
      { id := some raw.id, labels := some raw.labels } raw.properties

/-- What an end with the given id refers to. -/
def endpointOf (lib : Library) (id : Int64) : Endpoint :=
  (lib.store.findById? id .node).elim (.id id) .entity

/-- Load a relationship. -/
def loadRelationship (lib : Library) (m : Moment) (raw : RawRelationship) :
    Except MapperError (EntityKey × Library) :=
  match lib.store.findById? raw.id .relationship with
  | some key => .ok (key, lib.refresh m key raw.properties)
  | none =>
    lib.adopt (lib.catalog.resolve raw.type .relationship)
      { id := some raw.id
        start := some (lib.endpointOf raw.start)
        finish := some (lib.endpointOf raw.finish) } raw.properties

/-- Load a returned value, which must be a node or a relationship. -/
def load (lib : Library) (m : Moment) : GraphValue → Except MapperError (EntityKey × Library)
  | .node raw => lib.loadNode m raw
  | .relationship raw => lib.loadRelationship m raw
  | .scalar v =>
    .error (.connection (.decode "entity"
      ("expected a node or relationship, got a " ++ v.typeName ++ " value")))

/-- Load values in order up to the first that cannot be loaded, adding keys that are not listed
yet. What has been loaded stays loaded. -/
def loadAll (lib : Library) (m : Moment) (keys : List EntityKey) :
    List GraphValue → Except MapperError (List EntityKey) × Library
  | [] => (.ok keys, lib)
  | value :: rest =>
    match lib.load m value with
    | .error e => (.error e, lib)
    | .ok (key, lib) =>
      lib.loadAll m (if key ∈ keys then keys else keys ++ [key]) rest

end Library

end GraphMapping
