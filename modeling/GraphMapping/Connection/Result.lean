import GraphMapping.Value

/-!
# Query results

A result is a list of rows, and a row maps the variables of the statement to nodes, relationships
or plain values.

## Main definitions

* `GraphValue`: a node, a relationship or a plain value.
* `Row`, `QueryResult`: rows by variable, and their list.
* `QueryResult.first?`, `QueryResult.column`: what a variable was bound to.
-/

namespace GraphMapping

/-- A node as the database returns it. -/
structure RawNode where
  id : Int64
  labels : List String
  properties : Dict Value

/-- A relationship as the database returns it. -/
structure RawRelationship where
  id : Int64
  type : String
  properties : Dict Value
  start : Int64
  finish : Int64

/-- What a variable of a row is bound to. -/
inductive GraphValue where
  | node (n : RawNode)
  | relationship (r : RawRelationship)
  | scalar (v : Value)

namespace GraphValue

/-- The id and the properties of a node or relationship. -/
def entityParts? : GraphValue → Option (Int64 × Dict Value)
  | node n => some (n.id, n.properties)
  | relationship r => some (r.id, r.properties)
  | scalar _ => none

/-- The value is a node. -/
def isNode : GraphValue → Bool
  | node _ => true
  | _ => false

/-- The value is a relationship. -/
def isRelationship : GraphValue → Bool
  | relationship _ => true
  | _ => false

end GraphValue

/-- A row of a result: values by variable. -/
abbrev Row := Dict GraphValue

/-- The rows that a statement returned. -/
structure QueryResult where
  rows : List Row

namespace QueryResult

/-- A result without rows. -/
def empty : QueryResult := ⟨[]⟩

instance : Inhabited QueryResult := ⟨empty⟩

/-- All values bound to a variable, in row order. -/
def column (result : QueryResult) (name : String) : List GraphValue :=
  result.rows.filterMap (·.get? name)

/-- The value bound to a variable in the first row that has it. -/
def first? (result : QueryResult) (name : String) : Option GraphValue :=
  result.rows.findSome? (·.get? name)

/-- The rows of one result followed by those of another. -/
def append (a b : QueryResult) : QueryResult := ⟨a.rows ++ b.rows⟩

instance : Append QueryResult := ⟨append⟩

end QueryResult

end GraphMapping
