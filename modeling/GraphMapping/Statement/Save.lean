import GraphMapping.Entity.Store
import GraphMapping.Schema
import GraphMapping.Statement.Clause
import GraphMapping.Statement.Names

/-!
# Save statements

One statement writes a batch of entities. A new entity is created with its properties in the
pattern; a persisted one is matched by its id, its properties are assigned and the removed ones set
to null. A relationship brings its two ends with it: a stored end is written like any other node,
and an end known only by its id is matched. Whatever a batch mentions twice is written once.

The batch is checked first, and a batch that is refused changes nothing.

## Main definitions

* `Composed`: the outcome of composing a statement, with the variables and names it used.
* `Batch.check`: why a batch is refused.
* `Draft`: a statement under construction.
* `composeSave`: the statement that saves a batch.
-/

namespace GraphMapping

/-- The outcome of composing a statement, the store with the variables that were bound on the way,
and the names handed out. -/
structure Composed (α : Type) where
  outcome : Except MapperError α
  store : Store
  names : Names

/-! ### Checking a batch -/

namespace Batch

/-- Why an end of a relationship to save is refused. -/
def checkEnd (store : Store) (key : EntityKey) (e : Entity) (role : EndpointRole) :
    Except MapperError Unit :=
  match e.endpoint? role with
  | none => .error (.argument (.endpointMissing e.typeName key role))
  | some (.id _) => .ok ()
  | some (.entity other) =>
    match store.get? other with
    | none => .error (.argument (.endpointUnknown role other key))
    | some node =>
      if node.isNode then .ok () else .error (.argument (.endpointNotANode role other key))

/-- Why an entity to save is refused. -/
def checkKey (store : Store) (key : EntityKey) : Except MapperError Unit :=
  match store.get? key with
  | none => .error (.compilation (.unknownEntity key))
  | some e =>
    if e.isNode then .ok ()
    else do
      checkEnd store key e .start
      checkEnd store key e .finish

/-- Why a batch is refused: it is empty, or the first of its keys that is. -/
def check (store : Store) (keys : List EntityKey) : Except MapperError Unit :=
  if keys = [] then .error (.compilation .nothingToSave) else keys.forM (checkKey store)

end Batch

/-! ### Drafts -/

/-- A statement under construction. -/
structure Draft where
  store : Store
  names : Names
  clauses : Clauses := {}
  /-- The variables that have their place in the statement already. -/
  placed : List String := []
  /-- The variables that stand for nodes known only by their ids. -/
  boundIds : List (Int64 × String) := []

namespace Draft

/-- Bind a value to a parameter. -/
def bindParam (d : Draft) (param : String) (value : Value) : Draft :=
  { d with clauses := { d.clauses with params := d.clauses.params.insert param value } }

/-- Bind the fields of an entity to fresh parameters. -/
def bindFields (d : Draft) (e : Entity) : List (String × Value) → List FieldParam × Draft
  | [] => ([], d)
  | (field, value) :: rest =>
    let (param, names) := d.names.paramFor e field
    let (fields, d) := bindFields ({ d with names }.bindParam param value) e rest
    ((field, param) :: fields, d)

/-- Ask for the id of a variable, bound to the given parameter. -/
def askId (d : Draft) (name param : String) (id : Int64) : Draft :=
  let d := d.bindParam param (.integer id)
  { d with clauses := { d.clauses with conditions := d.clauses.conditions ++ [⟨name, param⟩] } }

/-- Match a pattern. -/
def addMatch (d : Draft) (p : Pattern) : Draft :=
  { d with clauses := { d.clauses with matched := d.clauses.matched ++ [p] } }

/-- Create a pattern. -/
def addCreate (d : Draft) (p : Pattern) : Draft :=
  { d with clauses := { d.clauses with created := d.clauses.created ++ [p] } }

/-- Return a variable. -/
def addReturn (d : Draft) (name : String) : Draft :=
  { d with clauses := { d.clauses with returned := d.clauses.returned ++ [name] } }

/-- The variable of a stored entity and the entity bound to it. -/
def define (d : Draft) (key : EntityKey) (e : Entity) : String × Entity × Draft :=
  let (name, bound, names) := d.names.define e
  (name, bound, { d with store := d.store.modify key fun _ => bound, names })

/-- Give a variable its place; the flag says that it had one already. -/
def place (d : Draft) (name : String) : Bool × Draft :=
  if name ∈ d.placed then (true, d) else (false, { d with placed := d.placed ++ [name] })

theorem place_of_mem {d : Draft} {name : String} (h : name ∈ d.placed) :
    d.place name = (true, d) := if_pos h

theorem place_of_not_mem {d : Draft} {name : String} (h : name ∉ d.placed) :
    d.place name = (false, { d with placed := d.placed ++ [name] }) := if_neg h

/-- Bring a persisted entity to its current data: its properties are assigned, the removed ones set
to null, and its id is asked for. -/
def update (d : Draft) (m : Moment) (name : String) (e : Entity) (id : Int64) : Draft :=
  let (fields, d) := d.bindFields e (e.data m .graph).toList
  let assigned := fields.map (fun (field, param) => Assignment.mk name field (some param)) ++
    e.deleted.map (Assignment.mk name · none)
  let d := { d with clauses := { d.clauses with assigned := d.clauses.assigned ++ assigned } }
  let (param, names) := d.names.paramFor e "id"
  { d with names }.askId name param id

/-! ### Nodes -/

/-- Bring a stored node into the statement and give the pattern it is mentioned by. A new node is
spelled out in that pattern the first time; in every other case the pattern is its variable. The
flag says that the pattern spells it out. -/
def introduce (d : Draft) (m : Moment) (key : EntityKey) (e : Entity) :
    (Bool × NodePattern) × Draft :=
  let (name, e, d) := d.define key e
  match d.place name with
  | (true, d) => ((false, ⟨name, [], []⟩), d)
  | (false, d) =>
    match e.id with
    | none =>
      let (fields, d) := d.bindFields e (e.data m .graph).toList
      ((true, ⟨name, e.labels, fields⟩), d.addReturn name)
    | some id =>
      let d := (d.addMatch (.node ⟨name, [], []⟩)).update m name e id
      ((false, ⟨name, [], []⟩), d.addReturn name)

/-- Write a node of the batch. -/
def saveNode (d : Draft) (m : Moment) (key : EntityKey) (e : Entity) : Draft :=
  match d.introduce m key e with
  | ((true, p), d) => d.addCreate (.node p)
  | ((false, _), d) => d

/-- Match a node known only by its id, once for each id. -/
def introduceId (d : Draft) (id : Int64) : NodePattern × Draft :=
  match d.boundIds.lookup id with
  | some name => (⟨name, [], []⟩, d)
  | none =>
    let (name, names) := d.names.allocate .node
    let (param, names) := names.param name genericNodeName "id"
    let d := ({ d with names }.addMatch (.node ⟨name, [], []⟩)).askId name param id
    (⟨name, [], []⟩, { d with boundIds := d.boundIds ++ [(id, name)] })

/-- Bring an end of a relationship into the statement. -/
def introduceEnd (d : Draft) (m : Moment) : Option Endpoint → NodePattern × Draft
  | some (.entity key) =>
    match d.store.get? key with
    | some e =>
      let ((_, p), d) := d.introduce m key e
      (p, d)
    | none => (⟨"", [], []⟩, d)
  | some (.id id) => d.introduceId id
  | none => (⟨"", [], []⟩, d)

/-! ### Relationships -/

/-- Write a relationship of the batch with its ends. -/
def saveRelationship (d : Draft) (m : Moment) (key : EntityKey) (e : Entity) : Draft :=
  let (name, e, d) := d.define key e
  match d.place name with
  | (true, d) => d
  | (false, d) =>
    let (start, d) := d.introduceEnd m (e.endpoint? .start)
    let (finish, d) := d.introduceEnd m (e.endpoint? .finish)
    match e.id with
    | none =>
      let (fields, d) := d.bindFields e (e.data m .graph).toList
      (d.addCreate (.path start ⟨name, e.labels, fields⟩ finish)).addReturn name
    | some id =>
      let d := d.addMatch (.path start ⟨name, e.labels, []⟩ finish)
      (d.update m name e id).addReturn name

/-- Write an entity of the batch. -/
def save (d : Draft) (m : Moment) (key : EntityKey) : Draft :=
  match d.store.get? key with
  | some e => if e.isNode then d.saveNode m key e else d.saveRelationship m key e
  | none => d

end Draft

/-! ### The statement -/

/-- The statement that saves a batch. -/
def composeSave (m : Moment) (store : Store) (names : Names) (keys : List EntityKey) :
    Composed Statement :=
  match Batch.check store keys with
  | .error e => ⟨.error e, store, names⟩
  | .ok () =>
    let d := keys.foldl (fun d key => d.save m key) { store, names : Draft }
    ⟨.ok d.clauses.toStatement, d.store, d.names⟩

end GraphMapping
