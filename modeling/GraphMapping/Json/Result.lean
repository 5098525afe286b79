import GraphMapping.Connection.Result
import GraphMapping.Json.Writer

/-!
# Query results as JSON text

Rows are objects whose `values` map variables to tagged values: `Node`, `Relationship` or `Scalar`.

## Main definitions

* `Json.writeResult`: the compact JSON text of a query result.
-/

namespace GraphMapping.Json

/-- An object of the given members, whose values are JSON text already. -/
def object (members : List (String × String)) : String :=
  "\x7b" ++ ",".intercalate (members.map fun (name, text) => quoted name ++ ":" ++ text) ++ "\x7d"

/-- An array of items that are JSON text already. -/
def array (items : List String) : String := "[" ++ ",".intercalate items ++ "]"

/-- A machine integer. -/
def writeInteger (i : Int64) : String := toString i.toInt

/-- The value that a variable is bound to, tagged by its type. -/
def writeGraphValue : GraphValue → String
  | .node n =>
    object [("Node", object
      [("id", writeInteger n.id),
       ("labels", array (n.labels.map quoted)),
       ("properties", write (.map n.properties.toList))])]
  | .relationship r =>
    object [("Relationship", object
      [("id", writeInteger r.id),
       ("rel_type", quoted r.type),
       ("properties", write (.map r.properties.toList)),
       ("start", writeInteger r.start),
       ("end", writeInteger r.finish)])]
  | .scalar v => object [("Scalar", write v)]

/-- A row. -/
def writeRow (row : Row) : String :=
  object [("values", object (row.toList.map fun (name, value) => (name, writeGraphValue value)))]

/-- The compact JSON text of a query result. -/
def writeResult (result : QueryResult) : String :=
  object [("rows", array (result.rows.map writeRow))]

end GraphMapping.Json
