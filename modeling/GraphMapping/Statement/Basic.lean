import GraphMapping.Value

/-!
# Statements

A statement is query text, the values bound to its parameters, and the variables it returns. Values
travel in the parameters only and are no part of the text.

## Main definitions

* `Statement`: text, parameters and returned variables.
* `Statement.raw`: a hand-written statement.
-/

namespace GraphMapping

/-- A statement for the database. -/
structure Statement where
  text : String
  /-- The values of the parameters by name, without the leading dollar sign. -/
  params : Dict Value
  /-- The returned variables in order. -/
  returns : List String

namespace Statement

/-- A hand-written statement; what it returns is not tracked. -/
def raw (text : String) : Statement := ⟨text, .empty, []⟩

/-- Bind a parameter. -/
def bindParam (statement : Statement) (name : String) (value : Value) : Statement :=
  { statement with params := statement.params.insert name value }

end Statement

end GraphMapping
