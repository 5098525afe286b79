import GraphMapping.Decimal.Read
import GraphMapping.Json.Writer
import GraphMapping.Text.Blank
import GraphMapping.Text.Lowercase

/-!
# Property kinds

A property has a kind, and whatever is assigned to it is read through that kind. Coercion is total:
what cannot be made sense of becomes the kind's fallback instead of an error. A value is rendered
for one of two sides. Application code sees the native side; query parameters carry the graph side,
where a point in time is a number of seconds and a counter is one ahead.

## Main definitions

* `Kind`: the seven kinds.
* `Kind.infer`: the kind of an undeclared property, from the first value assigned to it.
* `Kind.toNative`, `Kind.toGraph`: the two renderings.
* `epochSeconds`, `ofEpochSeconds?`: points in time as numbers of seconds and back.
-/

namespace GraphMapping

open Calendar (DateTime)

/-- The side of the mapping that a value is rendered for. -/
inductive Side where
  /-- As application code sees it. -/
  | native
  /-- As it is written into query parameters. -/
  | graph
deriving DecidableEq, Repr

/-- What a property holds. -/
inductive Kind where
  | string
  | integer
  | float
  | boolean
  | dateTime
  /-- A point in time that is set once, to the current time unless told otherwise. -/
  | timestamp
  /-- An integer that is stored one higher each time. -/
  | increment
deriving DecidableEq, Repr

/-! ### Points in time as seconds -/

/-- The seconds from the start of 1970 as a float: the whole seconds and the fraction are each
rounded, and so is their sum. -/
def epochSeconds (t : DateTime) : Float :=
  Decimal.ofInt t.seconds + Decimal.ofInt t.nanos / 1e9

/-- The point in time at a number of seconds: the seconds below it and the rest in nanoseconds,
short of a full second. What is not a number is the start of 1970, and what is out of range no point
in time at all. -/
def ofEpochSeconds? (x : Float) : Option DateTime :=
  let seconds := match Decimal.Binary.ofFloat x with
    | .nan => (0 : Int)
    | .infinite negative => if negative then DateTime.beforeRange else DateTime.afterRange
    | .finite .. => (Decimal.floor? x).getD 0
  let rest := (x - Decimal.ofInt seconds) * 1e9
  let nanos := ((Decimal.roundHalfUp? rest).getD 0).toNat
  DateTime.ofTimestamp? seconds (min nanos 999999999)

namespace Kind

/-- The kind of an undeclared property that is assigned `value`; null, lists and maps tell none. -/
def infer : Value → Option Kind
  | .bool _ => some boolean
  | .string _ => some string
  | .integer _ => some integer
  | .float _ => some float
  | .dateTime _ => some dateTime
  | .null | .list _ | .map _ => none

/-! ### The native side -/

/-- Floats in text properties never have an exponent, and a whole one has no point. -/
def floatText : Decimal.Layout where
  tie := .up
  positional _ := true
  wholeMark := ""
  nan := "NaN"
  infinity := "inf"
  negativeInfinity := "-inf"

/-- The text of a value; only null has none. -/
def textOf? : Value → Option String
  | .null => none
  | .string s => some s
  | .bool b => some (if b then "true" else "false")
  | .integer i => some (toString i.toInt)
  | .float x => some (floatText.write x)
  | .dateTime t => some (t.format "+00:00")
  | .list items => some (Json.write (.list items))
  | .map entries => some (Json.write (.map entries))

/-- The integer of a value. Text is read as a number of any form and cut off. -/
def integerOf? : Value → Option Int64
  | .integer i => some i
  | .float x => some (Decimal.toInt64Clamped x)
  | .bool b => some (if b then 1 else 0)
  | .string s => (Decimal.readFloat (Text.trim s)).map Decimal.toInt64Clamped
  | .dateTime t => some (Int64.ofInt t.seconds)
  | .null | .list _ | .map _ => none

/-- The float of a value. -/
def floatOf? : Value → Option Float
  | .float x => some x
  | .integer i => some (Decimal.ofInt i.toInt)
  | .bool b => some (if b then 1.0 else 0.0)
  | .string s => Decimal.readFloat (Text.trim s)
  | .dateTime t => some (epochSeconds t)
  | .null | .list _ | .map _ => none

/-- The truth value of a value: what is empty, zero or the word `false` is false. -/
def booleanOf? : Value → Option Bool
  | .bool b => some b
  | .string s =>
    let word := Text.lowercase (Text.trim s)
    some (word ≠ "false" && word ≠ "")
  | .integer i => some (i ≠ 0)
  | .float x => some (x != 0.0)
  | .list items => some !items.isEmpty
  | .map entries => some !entries.isEmpty
  | .dateTime _ => some true
  | .null => none

/-- The point in time of a value: a number counts seconds, and text is a timestamp. -/
def dateTimeOf? : Value → Option DateTime
  | .dateTime t => some t
  | .integer i => ofEpochSeconds? (Decimal.ofInt i.toInt)
  | .float x => ofEpochSeconds? x
  | .string s => DateTime.parse? (Text.trim s)
  | .null | .bool _ | .list _ | .map _ => none

/-- A value as application code sees it in a property of this kind. What makes no sense for the kind
becomes zero or false, or null where the kind has no such value. -/
def toNative (kind : Kind) (value : Value) : Value :=
  match kind with
  | string => (textOf? value).elim .null .string
  | integer | increment => .integer ((integerOf? value).getD 0)
  | float => .float ((floatOf? value).getD 0.0)
  | boolean => .bool ((booleanOf? value).getD false)
  | dateTime | timestamp => (dateTimeOf? value).elim .null .dateTime

/-! ### The graph side -/

/-- The successor of a machine integer; the largest stays. -/
def successor (i : Int64) : Int64 := if i = Int64.maxValue then i else i + 1

/-- A value as it is stored by a property of this kind. -/
def toGraph (kind : Kind) (value : Value) : Value :=
  match kind, kind.toNative value with
  | dateTime, .dateTime t | timestamp, .dateTime t => .float (epochSeconds t)
  | increment, .integer i => .integer (successor i)
  | _, native => native

/-- A value rendered for one side. -/
def render (kind : Kind) (value : Value) : Side → Value
  | .native => kind.toNative value
  | .graph => kind.toGraph value

end Kind

end GraphMapping
