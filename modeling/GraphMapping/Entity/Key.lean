/-!
# Keys, endpoints and kinds

The small vocabulary of entities: the key an entity has in its store, the two kinds of entities,
the two ends of a relationship, and what an end refers to.

## Main definitions

* `EntityKey`: the place of an entity in its store.
* `EntityKind`: node or relationship.
* `EndpointRole`: the end at which a relationship starts or finishes.
* `Endpoint`: a stored node, or a node known only by its id.
-/

namespace GraphMapping

/-- The place of an entity in its store. It stays the same as long as the store exists. -/
structure EntityKey where
  index : Nat
deriving DecidableEq, Repr

/-- A key as messages show it. -/
def EntityKey.display (key : EntityKey) : String := "#" ++ toString key.index

/-- The kinds of entities. -/
inductive EntityKind where
  | node
  | relationship
deriving DecidableEq, Repr

/-- The ends of a relationship. -/
inductive EndpointRole where
  | start
  | finish
deriving DecidableEq, Repr

/-- The word for an end. -/
def EndpointRole.word : EndpointRole → String
  | start => "start"
  | finish => "end"

/-- What an end of a relationship refers to. -/
inductive Endpoint where
  /-- A node of the store, written together with the relationship. -/
  | entity (key : EntityKey)
  /-- A node that exists in the database and is known only by its id. -/
  | id (id : Int64)
deriving DecidableEq, Repr

/-- The stored node that an end refers to. -/
def Endpoint.key? : Endpoint → Option EntityKey
  | entity key => some key
  | id _ => none

end GraphMapping
