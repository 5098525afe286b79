/-!
# Lifecycle phases

## Main definitions

* `Phase`: the points in an entity's life at which hooks run.
* `Phase.word`: the phase as messages show it.
-/

namespace GraphMapping

/-- The points in an entity's life at which hooks run. -/
inductive Phase where
  | beforeCreate
  | afterCreate
  | beforeUpdate
  | afterUpdate
  | beforeDelete
  | afterDelete
  | propertyChanged
deriving DecidableEq, Repr

/-- The phase as messages show it. -/
def Phase.word : Phase → String
  | beforeCreate => "before_create"
  | afterCreate => "after_create"
  | beforeUpdate => "before_update"
  | afterUpdate => "after_update"
  | beforeDelete => "before_delete"
  | afterDelete => "after_delete"
  | propertyChanged => "property_changed"

end GraphMapping
