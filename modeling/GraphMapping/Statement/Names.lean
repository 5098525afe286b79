import GraphMapping.Entity.Basic
import GraphMapping.Text.Lowercase

/-!
# Names in a batch

Within a batch every entity has a query variable and every bound value a parameter name. Variables
are numbered, nodes apart from relationships; parameters are numbered per type name, and a name
spells the variable and the field it belongs to.

## Main definitions

* `Names`: how many names have been handed out.
* `Names.allocate`, `Names.define`: a fresh variable, and the variable of an entity.
* `Names.param`, `Names.paramFor`: a fresh parameter name.
-/

namespace GraphMapping

/-- How many names have been handed out in the current batch. -/
structure Names where
  nodes : Nat := 0
  relationships : Nat := 0
  /-- The number of parameters by type name. -/
  params : Dict Nat := .empty
deriving DecidableEq

namespace Names

/-- No name has been handed out. -/
def fresh : Names := {}

/-- A fresh variable for an entity of a kind. -/
def allocate (names : Names) : EntityKind → String × Names
  | .node => ("n" ++ toString names.nodes, { names with nodes := names.nodes + 1 })
  | .relationship =>
    ("r" ++ toString names.relationships, { names with relationships := names.relationships + 1 })

/-- The variable of an entity, a fresh one if it has none, and the entity bound to it. -/
def define (names : Names) (e : Entity) : String × Entity × Names :=
  match e.queryVariable with
  | some name => (name, e, names)
  | none =>
    let (name, names) := names.allocate e.kind
    (name, e.bindVariable name, names)

/-- A field name as part of a parameter name: what is no ASCII letter or digit is an underscore. -/
def normalizeField (field : String) : String :=
  String.ofList (field.toList.map fun c => if c.isAlphanum then c else '_')

/-- A fresh parameter name for a field: variable, field and running number, all in lower case. -/
def param (names : Names) (variableName typeName field : String) : String × Names :=
  let number := (names.params.get? typeName).getD 0
  (Text.lowercase (variableName ++ "_" ++ normalizeField field ++ "_" ++ toString number),
    { names with params := names.params.insert typeName (number + 1) })

/-- A fresh parameter name for a field of an entity. Without a variable, the type name stands for
it. -/
def paramFor (names : Names) (e : Entity) (field : String) : String × Names :=
  names.param (e.queryVariable.getD e.typeName) e.typeName field

end Names

end GraphMapping
