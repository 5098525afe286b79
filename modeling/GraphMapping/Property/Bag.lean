import GraphMapping.Property.Basic

/-!
# Property bags

The properties of one entity by name. A bag is open or closed: an open one takes on properties that
were never declared, inferring their kind from the first value, a closed one ignores them.

## Main definitions

* `Bag`: properties by name, and whether undeclared ones are allowed.
* `Bag.assign`, `Bag.assignAll`: ordinary assignments, of which a batch is made whole or not at all.
* `Bag.load`: replace all data and the baseline by what the database returned.
* `Bag.data`, `Bag.changed`: the views on data and on changes.
-/

namespace GraphMapping

/-- Why properties could not be assigned. -/
inductive PropertyError where
  /-- An undeclared property was given a value of a type that tells no kind. -/
  | uninferable (field valueType : String)
deriving DecidableEq, Repr

/-- The text of the error. -/
def PropertyError.message : PropertyError → String
  | uninferable field valueType =>
    "Cannot infer a property type for `" ++ field ++ "` from a " ++ valueType ++ " value"

/-- The properties of one entity. -/
structure Bag where
  properties : Dict Property
  /-- Properties that were never declared may be assigned. -/
  allowUndefined : Bool

namespace Bag

/-- A bag without properties. -/
def empty (allowUndefined : Bool) : Bag := ⟨.empty, allowUndefined⟩

instance : Inhabited Bag := ⟨empty false⟩

/-- Put a declared property under its name, replacing what was there. -/
def declare (bag : Bag) (name : String) (p : Property) : Bag :=
  { bag with properties := bag.properties.insert name p }

/-- The bag of declared properties. -/
def ofDeclared (declared : List (String × Property)) (allowUndefined : Bool) : Bag :=
  ⟨.ofList declared, allowUndefined⟩

/-- There is a property of this name. -/
def contains (bag : Bag) (name : String) : Bool := bag.properties.contains name

/-- The native value of a property. -/
def get? (bag : Bag) (m : Moment) (name : String) : Option Value :=
  (bag.properties.get? name).map fun p => p.value m .native

/-! ### Assignment -/

/-- Assign a source whose current value is `sample`, from which the kind of an undeclared property
is inferred. -/
def assignSource (bag : Bag) (name : String) (source : Source) (sample : Value) :
    Except PropertyError Bag :=
  match bag.properties.get? name with
  | some p => .ok (bag.declare name (p.assign source))
  | none =>
    if bag.allowUndefined then
      match Kind.infer sample with
      | some kind => .ok (bag.declare name (.ofAssignment kind source))
      | none => .error (.uninferable name sample.typeName)
    else .ok bag

/-- Assign a value. -/
def assign (bag : Bag) (name : String) (value : Value) : Except PropertyError Bag :=
  bag.assignSource name (.fixed value) value

/-- Assign a producer, which is run once to see what it gives. -/
def assignProducer (bag : Bag) (m : Moment) (name : String) (producer : Producer) :
    Except PropertyError Bag :=
  bag.assignSource name (.producer producer) (producer.run m)

/-- The value cannot be assigned: the property is unknown, may be taken on, and its kind cannot be
inferred. -/
def refuses (bag : Bag) (name : String) (value : Value) : Bool :=
  bag.allowUndefined && !bag.contains name && (Kind.infer value).isNone

/-- Assign the pairs in order. -/
def assignPairs : Bag → List (String × Value) → Except PropertyError Bag
  | bag, [] => .ok bag
  | bag, (name, value) :: rest =>
    match bag.assign name value with
    | .ok bag => bag.assignPairs rest
    | .error e => .error e

/-- Assign all pairs, the last of each name; if one of them is refused, none is assigned. -/
def assignAll (bag : Bag) (pairs : List (String × Value)) : Except PropertyError Bag :=
  let values := Dict.ofList pairs
  match values.toList.find? fun entry => bag.refuses entry.1 entry.2 with
  | some (name, value) => .error (.uninferable name value.typeName)
  | none => bag.assignPairs values.toList

/-- Drop a property. -/
def remove (bag : Bag) (name : String) : Bag :=
  { bag with properties := bag.properties.erase name }

/-! ### Loading -/

/-- Take on the loaded values of names that have no property yet, where a kind can be inferred. -/
def takeOn (properties : Dict Property) : List (String × Value) → Dict Property
  | [] => properties
  | (name, value) :: rest =>
    match properties.contains name, Kind.infer value with
    | false, some kind =>
      takeOn (properties.insert name ((Property.ofAssignment kind (.fixed value)).load value)) rest
    | _, _ => takeOn properties rest

/-- Replace the data by the pairs, the last of each name, and make them the baseline. Inferred
properties that are not among them disappear, declared ones are emptied. -/
def load (bag : Bag) (pairs : List (String × Value)) : Bag :=
  let values := Dict.ofList pairs
  let kept := bag.properties.filter fun name p => !p.inferred || values.contains name
  let loaded := kept.map fun name p => p.load (values.get? name)
  { bag with properties := if bag.allowUndefined then takeOn loaded values.toList else loaded }

/-! ### Views -/

/-- Every property resolved for one side; nulls are left out. -/
def data (bag : Bag) (m : Moment) (side : Side) : Dict Value :=
  (bag.properties.map fun _ p => p.value m side).filter fun _ value => !value.isNull

/-- The changes against the baseline. -/
def changed (bag : Bag) (m : Moment) : Dict Change :=
  (bag.properties.filter fun _ p => p.isChanged m).map fun _ p => p.change m

/-- Make the current values the baseline. -/
def commit (bag : Bag) (m : Moment) : Bag :=
  { bag with properties := bag.properties.map fun _ p => p.commit m }

/-- Go back to the baseline. -/
def reset (bag : Bag) : Bag :=
  { bag with properties := bag.properties.map fun _ p => p.reset }

end Bag

end GraphMapping
