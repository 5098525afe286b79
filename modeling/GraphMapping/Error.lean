import GraphMapping.Connection.Constraint
import GraphMapping.Entity.Key
import GraphMapping.Lifecycle.Phase
import GraphMapping.Property.Bag

/-!
# Errors

Every error says what went wrong as data; the wording is chosen in one place. A statement that the
database rejects may have violated a constraint, and `MapperError.classify` recognises that from the
text of the error.

## Main definitions

* `ArgumentFault`, `CompilationFault`: what a request cannot be carried out for.
* `ConnectionError`: what a connection reports.
* `MapperError`, `MapperError.message`: all errors, and their texts.
* `MapperError.classify`: the error made of a connection's error.
-/

namespace GraphMapping

/-- Why a request does not make sense for the entities it names. -/
inductive ArgumentFault where
  /-- A node type was given endpoints. -/
  | nodeWithEndpoints (typeName : String)
  /-- A node was given an endpoint. -/
  | notARelationship (typeName : String) (role : EndpointRole)
  /-- A relationship to save lacks an endpoint. -/
  | endpointMissing (typeName : String) (key : EntityKey) (role : EndpointRole)
  /-- An endpoint of a relationship to save is not stored. -/
  | endpointUnknown (role : EndpointRole) (other key : EntityKey)
  /-- An endpoint of a relationship to save is a relationship. -/
  | endpointNotANode (role : EndpointRole) (other key : EntityKey)
  /-- An entity to look up has no id. -/
  | noId (typeName : String) (key : EntityKey)
  /-- The start of a traversal is not stored. -/
  | startUnknown (key : EntityKey)
  /-- The start of a traversal is a relationship. -/
  | startNotANode (key : EntityKey)
deriving DecidableEq, Repr

/-- The text of the fault. -/
def ArgumentFault.message : ArgumentFault → String
  | nodeWithEndpoints typeName =>
    "`" ++ typeName ++ "` is a node type and cannot have endpoints"
  | notARelationship typeName role =>
    "`" ++ typeName ++ "` is a node and has no " ++ role.word ++ " endpoint"
  | endpointMissing typeName key role =>
    "relationship " ++ typeName ++ " (" ++ key.display ++ ") has no " ++ role.word ++ " node"
  | endpointUnknown role other key =>
    role.word ++ " endpoint " ++ other.display ++ " of " ++ key.display ++ " is unknown"
  | endpointNotANode role other key =>
    role.word ++ " endpoint " ++ other.display ++ " of " ++ key.display ++ " is not a node"
  | noId typeName key => typeName ++ " " ++ key.display ++ " has no id to look up"
  | startUnknown key => "traversal start " ++ key.display ++ " is unknown"
  | startNotANode key => "traversal start " ++ key.display ++ " is a relationship"

/-- Why a statement cannot be composed. -/
inductive CompilationFault where
  | nothingToSave
  | unknownEntity (key : EntityKey)
deriving DecidableEq, Repr

/-- The text of the fault. -/
def CompilationFault.message : CompilationFault → String
  | nothingToSave => "nothing to save"
  | unknownEntity key => "unknown entity " ++ key.display

/-- What a connection reports. -/
inductive ConnectionError where
  /-- The database rejected the statement. -/
  | backend (message : String)
  /-- The driver failed. The text is its own; what the server refuses is told in it. -/
  | driver (text : String)
  /-- A returned column could not be decoded. -/
  | decode (column message : String)
deriving DecidableEq, Repr

/-- The text of the error. -/
def ConnectionError.message : ConnectionError → String
  | backend message => "Backend error: " ++ message
  | driver text => "Neo4j driver error: " ++ text
  | decode column message => "Failed to decode `" ++ column ++ "`: " ++ message

/-- The errors of the mapper. -/
inductive MapperError where
  | argument (fault : ArgumentFault)
  | compilation (fault : CompilationFault)
  | constraintViolation (violation : ConstraintViolation)
  | property (error : PropertyError)
  | connection (error : ConnectionError)
  /-- A hook failed, which ends the flush. -/
  | hook (phase : Phase) (message : String)
  /-- The key is not one of the store. -/
  | unknownEntity (key : EntityKey)
  /-- A look-up by id returned several rows. -/
  | ambiguousResult (id : Int64) (count : Nat)
deriving DecidableEq

namespace MapperError

/-- The text of the error. -/
def message : MapperError → String
  | argument fault => "Argument error: " ++ fault.message
  | compilation fault => "Compilation error: " ++ fault.message
  | constraintViolation violation => violation.message
  | property error => error.message
  | connection error => error.message
  | hook phase message => "Lifecycle hook failed during " ++ phase.word ++ ": " ++ message
  | unknownEntity key => "Unknown entity " ++ key.display
  | ambiguousResult id count =>
    "Expected at most one result for id " ++ toString id.toInt ++ ", got " ++ toString count

/-- The error made of a connection's error: a constraint violation if its text reports one. -/
def classify (e : ConnectionError) : MapperError :=
  match ConstraintViolation.parse? e.message with
  | some violation => constraintViolation violation
  | none => connection e

end MapperError

end GraphMapping
