import GraphMapping.Entity.Labels
import GraphMapping.Error

/-!
# Entities

A node or a relationship: its id once it is persisted, its type name and labels, its properties,
the names of properties that were removed, and the query variable that it has while a batch is
being written. Removal is remembered apart from the properties, because a property that is gone can
no longer say that the database should forget it.

## Main definitions

* `Shape`: node, or relationship with its two ends.
* `Entity`: the entities.
* `Entity.assign`, `Entity.remove`, `Entity.load`, `Entity.commit`: changes to the data.
* `Entity.sameAs`: equality of identity, labels, ends and current data.
-/

namespace GraphMapping

/-- A node, or a relationship with what its ends refer to. -/
inductive Shape where
  | node
  | relationship (start finish : Option Endpoint)
deriving DecidableEq, Repr

/-- A node or a relationship. -/
structure Entity where
  /-- The id in the database, once it is persisted. -/
  id : Option Int64
  typeName : String
  /-- The labels of a node in increasing order, or the one type of a relationship. -/
  labels : List String
  shape : Shape
  properties : Bag
  /-- Names of properties removed since the last commit, earliest first. -/
  deleted : List String
  /-- The name that stands for the entity in the statements of the current batch. -/
  queryVariable : Option String

namespace Entity

/-! ### Construction -/

/-- A node that is not persisted. -/
def node (typeName : String) (labels : List String) (properties : Bag) : Entity where
  id := none
  typeName
  labels := normalizeLabels labels
  shape := .node
  properties
  deleted := []
  queryVariable := none

/-- A relationship that is not persisted. Of several labels the first in order is its type; without
any, the type name is. -/
def relationship (typeName : String) (labels : List String) (start finish : Option Endpoint)
    (properties : Bag) : Entity where
  id := none
  typeName
  labels := [(normalizeLabels labels).head?.getD typeName]
  shape := .relationship start finish
  properties
  deleted := []
  queryVariable := none

instance : Inhabited Entity := ⟨node "" [] default⟩

/-! ### Identity and ends -/

/-- Take an id; one that is there already is kept. -/
def setId (e : Entity) (id : Int64) : Entity :=
  { e with id := e.id.or (some id) }

/-- The entity is no longer persisted. -/
def clearId (e : Entity) : Entity := { e with id := none }

/-- The entity is a node. -/
def isNode (e : Entity) : Bool :=
  match e.shape with
  | .node => true
  | .relationship .. => false

/-- The entity is a relationship. -/
def isRelationship (e : Entity) : Bool := !e.isNode

/-- The kind of the entity. -/
def kind (e : Entity) : EntityKind := if e.isNode then .node else .relationship

/-- The end of a relationship in a role. -/
def endpoint? (e : Entity) (role : EndpointRole) : Option Endpoint :=
  match e.shape, role with
  | .node, _ => none
  | .relationship start _, .start => start
  | .relationship _ finish, .finish => finish

/-- The stored nodes that the ends of a relationship refer to, start first, each once. -/
def endpointKeys (e : Entity) : List EntityKey :=
  let key? := fun role => (e.endpoint? role).bind Endpoint.key?
  match key? .start, key? .finish with
  | some a, some b => if a = b then [a] else [a, b]
  | some a, none => [a]
  | none, some b => [b]
  | none, none => []

/-- Let an end refer to something else; a node has no ends. -/
def setEndpoint (e : Entity) (role : EndpointRole) (other : Endpoint) : Except MapperError Entity :=
  match e.shape, role with
  | .node, _ => .error (.argument (.notARelationship e.typeName role))
  | .relationship _ finish, .start => .ok { e with shape := .relationship (some other) finish }
  | .relationship start _, .finish => .ok { e with shape := .relationship start (some other) }

/-- The labels as one text. -/
def displayLabels (e : Entity) : String := ":".intercalate e.labels

/-! ### Data -/

/-- The native value of a property. -/
def get? (e : Entity) (m : Moment) (name : String) : Option Value := e.properties.get? m name

/-- The properties after an assignment to `name`, which is then no longer a removed one. -/
def withAssigned (e : Entity) (name : String) (properties : Bag) : Entity :=
  { e with properties, deleted := e.deleted.filter (· ≠ name) }

/-- Assign a value to a property. -/
def assign (e : Entity) (name : String) (value : Value) : Except PropertyError Entity :=
  (e.properties.assign name value).map (e.withAssigned name)

/-- Assign a producer to a property. -/
def assignProducer (e : Entity) (m : Moment) (name : String) (producer : Producer) :
    Except PropertyError Entity :=
  (e.properties.assignProducer m name producer).map (e.withAssigned name)

/-- Assign all pairs or none. Removed names stay removed. -/
def assignAll (e : Entity) (pairs : List (String × Value)) : Except PropertyError Entity :=
  (e.properties.assignAll pairs).map fun properties => { e with properties }

/-- Remove a property and remember that it was there. -/
def remove (e : Entity) (name : String) : Entity :=
  if e.properties.contains name then
    { e with
      properties := e.properties.remove name
      deleted := if name ∈ e.deleted then e.deleted else e.deleted ++ [name] }
  else e

/-- Replace the data and the baseline by what the database returned. -/
def load (e : Entity) (pairs : List (String × Value)) : Entity :=
  { e with properties := e.properties.load pairs, deleted := [] }

/-- Make the current data the baseline. -/
def commit (e : Entity) (m : Moment) : Entity :=
  { e with properties := e.properties.commit m, deleted := [] }

/-- Go back to the baseline. Removed properties stay removed. -/
def resetProperties (e : Entity) : Entity :=
  { e with properties := e.properties.reset }

/-- The resolved properties for one side. -/
def data (e : Entity) (m : Moment) (side : Side) : Dict Value := e.properties.data m side

/-- The changes against the baseline. -/
def changed (e : Entity) (m : Moment) : Dict Change := e.properties.changed m

/-! ### Query variables -/

/-- Stand for `name` in the statements of the current batch. -/
def bindVariable (e : Entity) (name : String) : Entity := { e with queryVariable := some name }

/-- Stand for no name any more. -/
def releaseVariable (e : Entity) : Entity := { e with queryVariable := none }

/-! ### Equality -/

/-- Equality of id, labels, ends and current native data, whatever the type names. The data of the
second entity is read just after that of the first, so that two readings of a clock differ. -/
def sameAs (m : Moment) (a b : Entity) : Bool :=
  a.id = b.id && a.labels = b.labels && a.shape = b.shape &&
    a.data m .native == b.data m.next .native

end Entity

end GraphMapping
