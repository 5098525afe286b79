import GraphMapping.Statement.Save

/-!
# Traversals

A traversal asks for the nodes at the other end of a node's relationships of one type. The start is
asked for by its id, or by its labels while it has none; the relationship may be narrowed down by
properties, and a part of the rows may be asked for.

## Main definitions

* `Direction`: which way the relationships point.
* `Traversal`: what is asked for.
* `composeTraversal`: the statement of a traversal.
-/

namespace GraphMapping

open Identifier (quote labelFragment)

/-- Which way the relationships point, seen from the start. -/
inductive Direction where
  | out
  | into
  | both
deriving DecidableEq, Repr

/-- What a traversal asks for. -/
structure Traversal where
  /-- The type of the relationships. -/
  type : String
  direction : Direction := .out
  /-- The labels of the nodes at the other end, in increasing order. -/
  endLabels : List String := []
  /-- Properties of the relationships; a name may repeat. -/
  properties : List (String × Value) := []
  /-- How many rows to pass over. -/
  skip : Option UInt64 := none
  /-- How many rows to return at most. -/
  limit : Option UInt64 := none

namespace Traversal

/-- Bind the properties of the relationships to fresh parameters. -/
def bindProperties (type : String) (names : Names) (params : Dict Value) :
    List (String × Value) → List FieldParam × Names × Dict Value
  | [] => ([], names, params)
  | (field, value) :: rest =>
    let (param, names) := names.param "rel" type field
    let (fields, names, params) := bindProperties type names (params.insert param value) rest
    ((field, param) :: fields, names, params)

/-- The text between the two ends of the path. -/
def writeRelationship (t : Traversal) (fields : List FieldParam) : String :=
  let inner := "[:" ++ quote t.type ++ writeFieldParams fields ++ "]"
  match t.direction with
  | .out => "-" ++ inner ++ "->"
  | .into => "<-" ++ inner ++ "-"
  | .both => "-" ++ inner ++ "-"

/-- A row count as a parameter: a machine integer, beyond whose range it wraps around. -/
def countParam (n : UInt64) : Value := .integer n.toInt64

/-- A clause that cuts the rows, when it is asked for, and the parameters with its count. -/
def cut (keyword param : String) (count : Option UInt64) (params : Dict Value) :
    String × Dict Value :=
  match count with
  | none => ("", params)
  | some n => (" " ++ keyword ++ " $" ++ param, params.insert param (countParam n))

end Traversal

/-- The statement of a traversal from a stored node. The nodes at the other end are returned under
the variable `other`, which the caller chooses. -/
def composeTraversal (store : Store) (names : Names) (start : EntityKey) (t : Traversal)
    (other : String) : Composed Statement :=
  match store.get? start with
  | none => ⟨.error (.argument (.startUnknown start)), store, names⟩
  | some e =>
    if e.isRelationship then ⟨.error (.argument (.startNotANode start)), store, names⟩
    else
      let (name, e, names) := names.define e
      let store := store.modify start fun _ => e
      let (pattern, condition, names, params) := match e.id with
        | some id =>
          let (param, names) := names.paramFor e "id"
          (NodePattern.mk name [] [], " WHERE " ++ (IdCondition.mk name param).write, names,
            Dict.empty.insert param (Value.integer id))
        | none => (NodePattern.mk name e.labels [], "", names, Dict.empty)
      let (fields, names, params) := Traversal.bindProperties t.type names params t.properties
      let (skip, params) := Traversal.cut "SKIP" "skip" t.skip params
      let (limit, params) := Traversal.cut "LIMIT" "limit" t.limit params
      let text := "MATCH " ++ pattern.write ++ t.writeRelationship fields ++
        (NodePattern.mk other t.endLabels []).write ++ condition ++ " RETURN " ++ other ++
        skip ++ limit
      ⟨.ok ⟨text, params, [other]⟩, store, names⟩

end GraphMapping
