import GraphMapping.Calendar.Rfc3339
import GraphMapping.Value

/-!
# Offers

Neither a Bolt value nor JSON text says which kind of value it is. It offers a piece of data, and the
kinds of value are tried on it one after the other: the first that accepts it decides. Kinds overlap.
Every integer would do as a float, and many texts would do as a point in time, so the order matters:
integers come before floats, and strings before points in time.

## Main definitions

* `Offer`: a piece of data, whose parts have been read.
* `Offer.kinds`: the kinds of value, in the order in which they are tried.
* `Offer.value`: the value of the first kind that accepts the offer.
-/

namespace GraphMapping

open Calendar (DateTime)

/-- A piece of data, whose parts have been read. -/
inductive Offer where
  | unit
  | bool (b : Bool)
  /-- An integer, whatever its size. -/
  | integer (n : Int)
  | float (x : Float)
  | text (s : String)
  | sequence (items : List Value)
  /-- Names with values, in the order in which they came; a name may repeat. -/
  | pairs (entries : List (String × Value))

namespace Offer

/-! ### Kinds of value -/

def null? : Offer → Option Value
  | unit => some .null
  | _ => none

def bool? : Offer → Option Value
  | bool b => some (.bool b)
  | _ => none

/-- Integers are accepted if a machine integer holds them. -/
def integer? : Offer → Option Value
  | integer n =>
    if -Int.pow 2 63 ≤ n ∧ n < Int.pow 2 63 then some (.integer (Int64.ofInt n)) else none
  | _ => none

/-- All integers are accepted, too, as the doubles closest to them. -/
def float? : Offer → Option Value
  | integer n => some (.float (Decimal.ofInt n))
  | float x => some (.float x)
  | _ => none

def string? : Offer → Option Value
  | text s => some (.string s)
  | _ => none

def dateTime? : Offer → Option Value
  | text s => (DateTime.parse? s).map .dateTime
  | _ => none

def list? : Offer → Option Value
  | sequence items => some (.list items)
  | _ => none

/-- Of two entries of one name the later counts. -/
def map? : Offer → Option Value
  | pairs entries => some (.ofPairs entries)
  | _ => none

/-- The kinds of value, in the order in which they are tried. -/
def kinds : List (Offer → Option Value) :=
  [null?, bool?, integer?, float?, string?, dateTime?, list?, map?]

/-! ### The first kind -/

/-- The value of the first kind that accepts the offer. -/
def first? (offer : Offer) : Option Value := kinds.findSome? fun kind => kind offer

theorem first?_integer (n : Int) : first? (integer n) =
    if -Int.pow 2 63 ≤ n ∧ n < Int.pow 2 63 then some (.integer (Int64.ofInt n))
    else some (.float (Decimal.ofInt n)) := by
  simp only [first?, kinds, List.findSome?_cons, null?, bool?, integer?, float?]
  by_cases h : -Int.pow 2 63 ≤ n ∧ n < Int.pow 2 63
  · simp only [if_pos h]
  · simp only [if_neg h]

/-- Nothing is offered that no kind accepts. -/
theorem isSome_first? (offer : Offer) : offer.first?.isSome = true := by
  cases offer with
  | integer n =>
    rw [first?_integer]
    split <;> rfl
  | _ => rfl

/-- The value of the first kind that accepts the offer. -/
def value (offer : Offer) : Value := offer.first?.get offer.isSome_first?

theorem value_eq_of_first? {offer : Offer} {v : Value} (h : offer.first? = some v) :
    offer.value = v :=
  Option.get_of_eq_some _ h

@[simp] theorem value_unit : unit.value = .null := rfl

@[simp] theorem value_bool (b : Bool) : (bool b).value = .bool b := rfl

/-- No text is taken for a point in time. -/
@[simp] theorem value_text (s : String) : (text s).value = .string s := rfl

@[simp] theorem value_sequence (items : List Value) : (sequence items).value = .list items := rfl

@[simp] theorem value_pairs (entries : List (String × Value)) :
    (pairs entries).value = .ofPairs entries := rfl

/-- An integer stays an integer as long as a machine integer holds it. -/
theorem value_integer {n : Int} (h : -Int.pow 2 63 ≤ n ∧ n < Int.pow 2 63) :
    (integer n).value = .integer (Int64.ofInt n) :=
  value_eq_of_first? (by rw [first?_integer, if_pos h])

end Offer

end GraphMapping
