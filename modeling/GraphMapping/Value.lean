import GraphMapping.Calendar.DateTime
import GraphMapping.Decimal.Binary
import GraphMapping.Dict

/-!
# Values

What a property holds, a query parameter binds and a result column returns. Lists and maps arrive
from the database only; no property is ever declared to hold one.

A map is the list of its entries. `Value.Canonical` says that the entries of every map, at every
depth, are in strictly increasing order of name, as `Value.ofPairs` and every reader leave them.

## Main definitions

* `Value`: the values.
* `Value.beq`: equality as data. Floats are compared as numbers, so a value that holds something
  that is not a number differs from itself, and the two zeros are equal.
* `Value.Canonical`: every map inside is sorted.
* `Value.typeName`: the word for a value's type in messages.
-/

namespace GraphMapping

open Calendar (DateTime)

/-- A property value, a query parameter or a column of a result. -/
inductive Value where
  | null
  | bool (b : Bool)
  | integer (i : Int64)
  | float (x : Float)
  | string (s : String)
  | dateTime (t : DateTime)
  | list (items : List Value)
  | map (entries : List (String × Value))
deriving Inhabited

namespace Value

/-! ### Equality -/

mutual

/-- Equality as data; floats are compared as numbers. -/
def beq : Value → Value → Bool
  | null, null => true
  | bool a, bool b => a == b
  | integer a, integer b => a == b
  | float a, float b => a == b
  | string a, string b => a == b
  | dateTime a, dateTime b => a == b
  | list a, list b => beqItems a b
  | map a, map b => beqEntries a b
  | _, _ => false

/-- Equality of lists of values, item by item. -/
def beqItems : List Value → List Value → Bool
  | [], [] => true
  | a :: as, b :: bs => beq a b && beqItems as bs
  | _, _ => false

/-- Equality of entries, name by name and value by value. -/
def beqEntries : List (String × Value) → List (String × Value) → Bool
  | [], [] => true
  | (k, a) :: as, (l, b) :: bs => k == l && beq a b && beqEntries as bs
  | _, _ => false

end

instance : BEq Value := ⟨beq⟩

/-! ### Sorted maps -/

mutual

/-- The entries of every map inside the value increase strictly in name. -/
def Canonical : Value → Prop
  | list items => CanonicalItems items
  | map entries => Entries.Sorted entries ∧ CanonicalEntries entries
  | _ => True

/-- Every item is canonical. -/
def CanonicalItems : List Value → Prop
  | [] => True
  | item :: rest => Canonical item ∧ CanonicalItems rest

/-- The value of every entry is canonical. -/
def CanonicalEntries : List (String × Value) → Prop
  | [] => True
  | (_, value) :: rest => Canonical value ∧ CanonicalEntries rest

end

/-- The map of a list of pairs in which a later pair replaces an earlier one. -/
def ofPairs (pairs : List (String × Value)) : Value := map (Entries.ofPairs pairs)

/-! ### Inspection -/

/-- The word for the type of a value. -/
def typeName : Value → String
  | null => "null"
  | bool _ => "bool"
  | integer _ => "integer"
  | float _ => "float"
  | string _ => "string"
  | dateTime _ => "datetime"
  | list _ => "list"
  | map _ => "map"

/-- The value is null. -/
def isNull : Value → Bool
  | null => true
  | _ => false

/-- The text of a string. -/
def string? : Value → Option String
  | string s => some s
  | _ => none

/-- The integer of an integer value. -/
def integer? : Value → Option Int64
  | integer i => some i
  | _ => none

/-- A float, or the double closest to an integer. -/
def float? : Value → Option Float
  | float x => some x
  | integer i => some (Decimal.ofInt i.toInt)
  | _ => none

/-- The truth value of a boolean. -/
def bool? : Value → Option Bool
  | bool b => some b
  | _ => none

@[simp] theorem isNull_iff {v : Value} : v.isNull = true ↔ v = null := by
  cases v <;> simp [isNull]

end Value

end GraphMapping
