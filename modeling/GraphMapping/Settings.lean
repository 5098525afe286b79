import GraphMapping.Decimal.Read
import GraphMapping.Dict

/-!
# Settings

Where the database is, who connects to it and how often connecting is tried come from the
environment, with defaults for what is not set there; the mapper has two switches of its own.

## Main definitions

* `ConnectionSettings.ofEnvironment`: the connection settings of an environment.
* `MapperSettings`: the switches of a mapper.
* `isBoltAddress`: an address that can be connected to.
* `backoffSeconds`: how long to wait after a failed attempt.
-/

namespace GraphMapping

/-- How to reach the database. -/
structure ConnectionSettings where
  uri : String := "bolt://localhost:7687"
  user : String := "neo4j"
  password : String := "password"
  /-- How often connecting is tried. -/
  retries : Nat := 4
deriving DecidableEq, Repr

/-- A number of attempts: the digits, with a plus sign or without, of a positive number below
`2 ^ 32`. -/
def readRetries? (s : String) : Option Nat :=
  let digits := match s.toList with
    | '+' :: cs => cs
    | cs => cs
  let n := Decimal.digitsValue digits
  if digits ≠ [] ∧ digits.all Decimal.isDigit ∧ 0 < n ∧ n < Nat.pow 2 32 then some n else none

/-- The settings of an environment. A variable that is set to nothing counts as set, except for the
number of attempts, where whatever is no such number is passed over. -/
def ConnectionSettings.ofEnvironment (env : Dict String) : ConnectionSettings :=
  let defaults : ConnectionSettings := {}
  { uri := (env.get? "NEO4J_URI").getD defaults.uri
    user := (env.get? "NEO4J_USER").getD defaults.user
    password := (env.get? "NEO4J_PASSWORD").getD defaults.password
    retries := ((env.get? "NEO4J_CONNECT_RETRIES").bind readRetries?).getD defaults.retries }

/-- The scheme of an address, the part before `://`, in lower case; `passed` are the characters
before the given ones, last first. -/
def schemeOf? (passed : List Char) : List Char → Option String
  | ':' :: '/' :: '/' :: _ => some (String.ofList (passed.reverse.map Char.toLower))
  | [] => none
  | c :: rest => schemeOf? (c :: passed) rest

/-- An address can be connected to over the Bolt protocol: its scheme is one of two, or absent. -/
def isBoltAddress (uri : String) : Bool :=
  match schemeOf? [] uri.toList with
  | none => true
  | some scheme => scheme = "bolt" || scheme = "neo4j"

/-- The switches of a mapper. -/
structure MapperSettings where
  /-- Write each executed statement to the log. -/
  logStatements : Bool := true
  /-- Entities of unknown types take on properties that are not declared. -/
  allowUndefined : Bool := true
deriving DecidableEq, Repr

/-- The seconds to wait after a failed attempt, the first being attempt 1. The wait doubles each
time up to 64 seconds. -/
def backoffSeconds (attempt : Nat) : Nat := Nat.pow 2 (min (attempt - 1) 6)

end GraphMapping
