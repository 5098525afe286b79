import GraphMapping.Connection.Result
import GraphMapping.Error
import GraphMapping.Statement.Basic

/-!
# Connections

A connection answers one statement after another. What it will answer is given in advance, each
answer as a function of the statement it is the answer to; once the answers are used up, statements
succeed without rows. The connection remembers what it has executed.

## Main definitions

* `Answer`: how one statement is answered.
* `Connection`: the answers to come and the statements executed so far.
* `Connection.execute`: execute a statement.
-/

namespace GraphMapping

/-- How one statement is answered. -/
abbrev Answer := Statement → Except ConnectionError QueryResult

/-- The answers to come and the statements executed so far. -/
structure Connection where
  answers : List Answer := []
  executed : List Statement := []

namespace Connection

/-- The answer to a statement, and the connection after it. -/
def answer (c : Connection) (statement : Statement) :
    Except ConnectionError QueryResult × Connection :=
  match c.answers with
  | [] => (.ok .empty, { c with executed := c.executed ++ [statement] })
  | reply :: rest => (reply statement, ⟨rest, c.executed ++ [statement]⟩)

/-- Execute a statement. A constraint violation is recognised as such. -/
def execute (c : Connection) (statement : Statement) :
    Except MapperError QueryResult × Connection :=
  let (reply, c) := c.answer statement
  (reply.mapError MapperError.classify, c)

end Connection

end GraphMapping
