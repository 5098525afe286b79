import GraphMapping.Statement.Basic
import GraphMapping.Statement.Identifier

/-!
# Clauses

A statement is composed from clauses that are data, and becomes text only at the end. The data says
which variables are matched and which are created, what is assigned to whom, and which parameter
stands where; the text adds nothing to it.

## Main definitions

* `NodePattern`, `RelationshipPattern`, `Pattern`: what a clause matches or creates.
* `Assignment`, `IdCondition`: what is set, and which ids are asked for.
* `Clauses`, `Clauses.toStatement`: the clauses of a statement, and the statement.
-/

namespace GraphMapping

open Identifier (quote labelFragment)

/-! ### Patterns -/

/-- A field and the parameter that its value is bound to. -/
abbrev FieldParam := String × String

/-- Fields with their parameters, as they stand inside a pattern. -/
def writeFieldParams (fields : List FieldParam) : String :=
  if fields = [] then ""
  else
    " \x7b" ++ ", ".intercalate (fields.map fun (field, param) => quote field ++ ": $" ++ param) ++
      "\x7d"

/-- A node in a pattern. -/
structure NodePattern where
  name : String
  labels : List String := []
  fields : List FieldParam := []
deriving DecidableEq, Repr

/-- The text of a node. -/
def NodePattern.write (p : NodePattern) : String :=
  "(" ++ p.name ++ labelFragment p.labels ++ writeFieldParams p.fields ++ ")"

/-- A relationship in a pattern. -/
structure RelationshipPattern where
  name : String
  labels : List String := []
  fields : List FieldParam := []
deriving DecidableEq, Repr

/-- The text of a relationship. -/
def RelationshipPattern.write (p : RelationshipPattern) : String :=
  "[" ++ p.name ++ labelFragment p.labels ++ writeFieldParams p.fields ++ "]"

/-- What a clause matches or creates. -/
inductive Pattern where
  | node (n : NodePattern)
  /-- A relationship from one node to another. -/
  | path (start : NodePattern) (relationship : RelationshipPattern) (finish : NodePattern)
  /-- A relationship between any nodes, in any direction. -/
  | betweenAny (relationship : RelationshipPattern)
deriving DecidableEq, Repr

/-- The text of a pattern. -/
def Pattern.write : Pattern → String
  | node n => n.write
  | path start relationship finish =>
    start.write ++ "-" ++ relationship.write ++ "->" ++ finish.write
  | betweenAny relationship => "()-" ++ relationship.write ++ "-()"

/-! ### Assignments and conditions -/

/-- What is assigned to a field of a variable: a parameter, or null when there is none. -/
structure Assignment where
  name : String
  field : String
  param : Option String
deriving DecidableEq, Repr

/-- The text of an assignment. -/
def Assignment.write (a : Assignment) : String :=
  a.name ++ "." ++ quote a.field ++ " = " ++ a.param.elim "NULL" ("$" ++ ·)

/-- The variable has the id that the parameter is bound to. -/
structure IdCondition where
  name : String
  param : String
deriving DecidableEq, Repr

/-- The text of a condition. -/
def IdCondition.write (c : IdCondition) : String := "id(" ++ c.name ++ ") = $" ++ c.param

/-! ### Statements -/

/-- The clauses of a statement, each in the order of its text, and the bound parameters. -/
structure Clauses where
  matched : List Pattern := []
  created : List Pattern := []
  assigned : List Assignment := []
  conditions : List IdCondition := []
  returned : List String := []
  /-- Equal rows are returned once. -/
  distinct : Bool := false
  params : Dict Value := .empty

namespace Clauses

/-- A clause, which is left out when it is empty. -/
def part (keyword separator : String) (items : List String) : List String :=
  if items = [] then [] else [keyword ++ " " ++ separator.intercalate items]

/-- The text of the clauses. -/
def write (clauses : Clauses) : String :=
  " ".intercalate <|
    part "MATCH" ", " (clauses.matched.map Pattern.write) ++
    part "CREATE" ", " (clauses.created.map Pattern.write) ++
    part "SET" ", " (clauses.assigned.map Assignment.write) ++
    part "WHERE" " AND " (clauses.conditions.map IdCondition.write) ++
    part (if clauses.distinct then "RETURN DISTINCT" else "RETURN") ", " clauses.returned

/-- The statement that the clauses are. -/
def toStatement (clauses : Clauses) : Statement :=
  ⟨clauses.write, clauses.params, clauses.returned⟩

end Clauses

end GraphMapping
