import GraphMapping.Entity.Basic

/-!
# Schemas

A schema says what the entities of a type look like: node or relationship, their labels, their
declared properties, and whether other properties may be assigned. Entities are made from a schema.
A catalog holds the schemas of an application; a type that it does not know is made after the
generic node or relationship.

## Main definitions

* `Schema`, `Schema.instantiate`: a type of entities, and an entity of it.
* `NewEntity`: what a new entity starts with.
* `Catalog`, `Catalog.resolve`: schemas by type name.
-/

namespace GraphMapping

/-- What the entities of a type look like. -/
structure Schema where
  name : String
  kind : EntityKind
  /-- The labels of an entity that is given none of its own. -/
  labels : List String
  allowUndefined : Bool
  /-- The declared properties in the order of their declaration. -/
  declared : List (String × Property)

/-- What a new entity starts with. -/
structure NewEntity where
  id : Option Int64 := none
  labels : Option (List String) := none
  properties : List (String × Value) := []
  start : Option Endpoint := none
  finish : Option Endpoint := none

namespace Schema

/-- A node type. Its name spells its labels. -/
def node (name : String) : Schema := ⟨name, .node, deriveLabels name, false, []⟩

/-- A relationship type. Its name is its label. -/
def relationship (name : String) : Schema := ⟨name, .relationship, [name], false, []⟩

/-- A type of the given kind. -/
def ofKind : EntityKind → String → Schema
  | .node => node
  | .relationship => relationship

/-- Other labels. -/
def withLabels (schema : Schema) (labels : List String) : Schema :=
  { schema with labels := normalizeLabels labels }

/-- Allow or forbid properties that are not declared. -/
def withUndefined (schema : Schema) (allow : Bool) : Schema :=
  { schema with allowUndefined := allow }

/-- Declare a property after the others; an earlier declaration of the name is dropped. -/
def declare (schema : Schema) (name : String) (p : Property) : Schema :=
  { schema with declared := schema.declared.filter (·.1 ≠ name) ++ [(name, p)] }

/-- The first pair whose value cannot become a property: its name is not declared, other properties
are allowed, and the value tells no kind. -/
def refused? (schema : Schema) (pairs : List (String × Value)) : Option (String × Value) :=
  pairs.find? fun pair =>
    schema.allowUndefined && !schema.declared.any (·.1 = pair.1) && (Kind.infer pair.2).isNone

/-- A new entity of the type. Its properties count as loaded, not as changed. -/
def instantiate (schema : Schema) (new : NewEntity) : Except MapperError Entity :=
  match schema.refused? new.properties with
  | some (name, value) => .error (.property (.uninferable name value.typeName))
  | none =>
    let properties := (Bag.ofDeclared schema.declared schema.allowUndefined).load new.properties
    let labels := new.labels.getD schema.labels
    match schema.kind with
    | .node =>
      if new.start.isSome || new.finish.isSome then
        .error (.argument (.nodeWithEndpoints schema.name))
      else .ok { Entity.node schema.name labels properties with id := new.id }
    | .relationship =>
      .ok { Entity.relationship schema.name labels new.start new.finish properties with
        id := new.id }

end Schema

/-! ### Catalogs -/

/-- The type name of nodes without a type of their own. -/
def genericNodeName : String := "Node"

/-- The type name of relationships without a type of their own. -/
def genericRelationshipName : String := "Relationship"

/-- The schemas of an application by type name. -/
structure Catalog where
  schemas : Dict Schema
  /-- Entities of unknown types take on properties that are not declared. -/
  allowUndefined : Bool

namespace Catalog

/-- A catalog without schemas of its own. -/
def empty (allowUndefined : Bool) : Catalog := ⟨.empty, allowUndefined⟩

/-- Add a schema under its name, replacing an earlier one. -/
def register (catalog : Catalog) (schema : Schema) : Catalog :=
  { catalog with schemas := catalog.schemas.insert schema.name schema }

/-- The generic schema of a kind. -/
def generic (catalog : Catalog) : EntityKind → Schema
  | .node => (Schema.node genericNodeName).withUndefined catalog.allowUndefined
  | .relationship =>
    (Schema.relationship genericRelationshipName).withUndefined catalog.allowUndefined

/-- The schema of a name. The two generic names always mean the generic schemas. -/
def get? (catalog : Catalog) (name : String) : Option Schema :=
  if name = genericNodeName then some (catalog.generic .node)
  else if name = genericRelationshipName then some (catalog.generic .relationship)
  else catalog.schemas.get? name

/-- The schema of a name. An unknown name is a generic type of the wanted kind with the labels that
the name spells; a known one keeps its own kind. -/
def resolve (catalog : Catalog) (name : String) (kind : EntityKind) : Schema :=
  match catalog.get? name with
  | some schema => schema
  | none =>
    let labels := match kind with
      | .node => deriveLabels name
      | .relationship => [name]
    { (catalog.generic kind).withLabels labels with name := name }

end Catalog

end GraphMapping
