import GraphMapping.Connection.Result
import GraphMapping.Error
import GraphMapping.Offer
import GraphMapping.Statement.Basic

/-!
# The Bolt boundary

Parameters are sent to the database as Bolt values, and the columns of an answer come back as Bolt
values. Bolt as spoken here has no points in time: one is sent as its timestamp text. What comes
back may be a node or a relationship; inside a list or map such a thing is only the map of its
properties, and a byte string is a list of integers.

## Main definitions

* `Bolt`: the values on the wire.
* `Bolt.ofValue`: sending a value.
* `Bolt.offer`, `Bolt.toValue`: receiving a value.
* `Bolt.Table`: an answer of the database.
* `Bolt.execute`: send a statement and decode the columns it returns.
-/

namespace GraphMapping

/-- A value on the wire. -/
inductive Bolt where
  | null
  | bool (b : Bool)
  | integer (i : Int64)
  | float (x : Float)
  | string (s : String)
  | bytes (bs : List UInt8)
  | list (items : List Bolt)
  | map (entries : List (String × Bolt))
  | node (id : Int64) (labels : List String) (properties : List (String × Bolt))
  | relationship (id : Int64) (type : String) (start finish : Int64)
      (properties : List (String × Bolt))
deriving Inhabited

namespace Bolt

/-! ### Sending -/

mutual

/-- A value as it is sent. -/
def ofValue : Value → Bolt
  | .null => null
  | .bool b => bool b
  | .integer i => integer i
  | .float x => float x
  | .string s => string s
  | .dateTime t => string (t.format "+00:00")
  | .list items => list (ofItems items)
  | .map entries => map (ofEntries entries)

/-- Every item as it is sent. -/
def ofItems : List Value → List Bolt
  | [] => []
  | item :: rest => ofValue item :: ofItems rest

/-- Every entry as it is sent. -/
def ofEntries : List (String × Value) → List (String × Bolt)
  | [] => []
  | (name, value) :: rest => (name, ofValue value) :: ofEntries rest

end

/-! ### Receiving -/

mutual

/-- What a received value offers. Entities offer the maps of their properties, bytes offer
integers. -/
def offer : Bolt → Offer
  | null => .unit
  | bool b => .bool b
  | integer i => .integer i.toInt
  | float x => .float x
  | string s => .text s
  | bytes bs => .sequence (bs.map fun b => (Offer.integer b.toNat).value)
  | list items => .sequence (toItems items)
  | map entries => .pairs (toEntries entries)
  | node _ _ properties => .pairs (toEntries properties)
  | relationship _ _ _ _ properties => .pairs (toEntries properties)

/-- Every received item. -/
def toItems : List Bolt → List Value
  | [] => []
  | item :: rest => item.offer.value :: toItems rest

/-- Every received entry. -/
def toEntries : List (String × Bolt) → List (String × Value)
  | [] => []
  | (name, value) :: rest => (name, value.offer.value) :: toEntries rest

end

/-- A received value. -/
def toValue (b : Bolt) : Value := b.offer.value

/-- A received column: a node, a relationship or a plain value. -/
def toGraphValue : Bolt → GraphValue
  | node id labels properties => .node ⟨id, labels, .ofList (toEntries properties)⟩
  | relationship id type start finish properties =>
    .relationship ⟨id, type, .ofList (toEntries properties), start, finish⟩
  | value => .scalar value.toValue

/-! ### Statements -/

/-- What is sent for a statement. -/
structure Request where
  text : String
  params : List (String × Bolt)

/-- An answer: the names of the columns, and the records with their values in that order. A record
may be shorter than the list of names. -/
structure Table where
  fields : List String
  records : List (List Bolt)

/-- What is sent for a statement. -/
def request (statement : Statement) : Request := ⟨statement.text, ofEntries statement.params.toList⟩

/-- The columns of a record by name; of two columns of one name the later counts. -/
def columns (fields : List String) (record : List Bolt) : Dict Bolt :=
  .ofList (fields.zip record)

/-- The returned variables of one record. Every one of them must be a column. -/
def decodeRow (columns : Dict Bolt) : List String → Row → Except ConnectionError Row
  | [], row => .ok row
  | name :: rest, row =>
    match columns.get? name with
    | some value => decodeRow columns rest (row.insert name value.toGraphValue)
    | none => .error (.decode name "The property does not exist")

/-- The result that an answer is for a statement returning the given variables. -/
def decode (returns : List String) (table : Table) : Except ConnectionError QueryResult :=
  (table.records.mapM fun record =>
    decodeRow (columns table.fields record) returns .empty).map QueryResult.mk

/-- Send a statement to a server and decode its answer. -/
def execute (server : Request → Except ConnectionError Table) (statement : Statement) :
    Except ConnectionError QueryResult :=
  match server (request statement) with
  | .ok table => decode statement.returns table
  | .error e => .error e

end Bolt

end GraphMapping
