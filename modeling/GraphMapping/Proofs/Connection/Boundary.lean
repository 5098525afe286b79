import GraphMapping.Proofs.Connection.Columns
import GraphMapping.Proofs.Dict

/-!
# Values cross the boundary

A value that is bound to a parameter comes back as it went, except for the points in time in it. They
are sent as timestamp texts and come back as texts, at whatever depth they stand. Everything else
keeps its kind, although what comes back only offers a piece of data: integers are not taken for
floats, nor texts for points in time. The entries of a map may come back in any order.

## Main definitions

* `Value.spelled`: the value with timestamp texts for points in time.
* `Bolt.Carries`: the forms that a value has on the wire.

## Main results

* `Bolt.toValue_of_carries`: what is received is the spelled value.
* `Bolt.received_spelled`: the same of a whole statement and its answer.
-/

namespace GraphMapping

/-! ### Spelling out points in time -/

namespace Value

mutual

/-- The value with every point in time in it replaced by its timestamp text. -/
def spelled : Value → Value
  | dateTime t => string (t.format "+00:00")
  | list items => list (spelledItems items)
  | map entries => map (spelledEntries entries)
  | v => v

/-- Every item spelled. -/
def spelledItems : List Value → List Value
  | [] => []
  | item :: rest => spelled item :: spelledItems rest

/-- The value of every entry spelled. -/
def spelledEntries : List (String × Value) → List (String × Value)
  | [] => []
  | (name, value) :: rest => (name, spelled value) :: spelledEntries rest

end

theorem names_spelledEntries (entries : List (String × Value)) :
    Entries.names (spelledEntries entries) = Entries.names entries := by
  induction entries with
  | nil => rfl
  | cons entry rest ih => exact congrArg (entry.1 :: ·) ih

theorem sorted_spelledEntries {entries : List (String × Value)} (h : Entries.Sorted entries) :
    Entries.Sorted (spelledEntries entries) := by
  rwa [Entries.Sorted, names_spelledEntries]

end Value

namespace Bolt

open Calendar (DateTime)
open Value (spelled spelledItems spelledEntries)

/-! ### Forms on the wire -/

mutual

/-- The Bolt value carries the value: it is the value as it is sent, but the entries of a map may be
in any order, as on the wire they have none. -/
def Carries : Value → Bolt → Prop
  | .list items, list bs => CarriesItems items bs
  | .map entries, map bs => ∃ ordered, bs.Perm ordered ∧ CarriesEntries entries ordered
  | .list _, _ => False
  | .map _, _ => False
  | v, b => b = ofValue v

/-- Every item is carried. -/
def CarriesItems : List Value → List Bolt → Prop
  | [], [] => True
  | item :: rest, b :: bs => Carries item b ∧ CarriesItems rest bs
  | _, _ => False

/-- Every entry is carried, in order. -/
def CarriesEntries : List (String × Value) → List (String × Bolt) → Prop
  | [], [] => True
  | (name, value) :: rest, (name', b) :: bs =>
    name' = name ∧ Carries value b ∧ CarriesEntries rest bs
  | _, _ => False

end

mutual

theorem carries_ofValue : ∀ v : Value, Carries v (ofValue v)
  | .null | .bool _ | .integer _ | .float _ | .string _ | .dateTime _ => rfl
  | .list items => carriesItems_ofItems items
  | .map entries => ⟨ofEntries entries, .refl _, carriesEntries_ofEntries entries⟩

theorem carriesItems_ofItems : ∀ items : List Value, CarriesItems items (ofItems items)
  | [] => trivial
  | item :: rest => ⟨carries_ofValue item, carriesItems_ofItems rest⟩

theorem carriesEntries_ofEntries :
    ∀ entries : List (String × Value), CarriesEntries entries (ofEntries entries)
  | [] => trivial
  | (_, value) :: rest => ⟨rfl, carries_ofValue value, carriesEntries_ofEntries rest⟩

end

/-! ### Receiving what was sent -/

theorem toEntries_eq_map (entries : List (String × Bolt)) :
    toEntries entries = entries.map fun entry => (entry.1, entry.2.toValue) := by
  induction entries with
  | nil => rfl
  | cons entry rest ih => exact congrArg ((entry.1, entry.2.toValue) :: ·) ih

theorem toValue_integer (i : Int64) : (integer i).toValue = .integer i := by
  have hrange : -Int.pow 2 63 ≤ i.toInt ∧ i.toInt < Int.pow 2 63 :=
    ⟨Int64.le_toInt i, Int64.toInt_lt i⟩
  rw [toValue, offer, Offer.value_integer hrange, Int64.ofInt_toInt]

mutual

theorem toValue_of_carries : ∀ (v : Value) {b : Bolt}, v.Canonical → Carries v b →
    b.toValue = v.spelled
  | .null, _, _, rfl | .bool _, _, _, rfl | .float _, _, _, rfl | .string _, _, _, rfl
  | .dateTime _, _, _, rfl => rfl
  | .integer i, _, _, rfl => toValue_integer i
  | .list items, .list bs, hv, hb =>
    congrArg Value.list (toItems_of_carries items hv hb)
  | .map entries, .map bs, ⟨hsorted, hv⟩, ⟨ordered, hperm, hb⟩ => by
    have hordered : toEntries ordered = spelledEntries entries := toEntries_of_carries entries hv hb
    have hreceived : (toEntries bs).Perm (spelledEntries entries) := by
      rw [← hordered, toEntries_eq_map, toEntries_eq_map]
      exact hperm.map _
    exact congrArg Value.map
      (Dict.ofPairs_of_perm hreceived (Value.sorted_spelledEntries hsorted))

theorem toItems_of_carries : ∀ (items : List Value) {bs : List Bolt}, Value.CanonicalItems items →
    CarriesItems items bs → toItems bs = spelledItems items
  | [], [], _, _ => rfl
  | item :: rest, _ :: _, ⟨hitem, hrest⟩, ⟨hb, hbs⟩ =>
    congrArg₂ List.cons (toValue_of_carries item hitem hb) (toItems_of_carries rest hrest hbs)

theorem toEntries_of_carries : ∀ (entries : List (String × Value)) {bs : List (String × Bolt)},
    Value.CanonicalEntries entries → CarriesEntries entries bs →
      toEntries bs = spelledEntries entries
  | [], [], _, _ => rfl
  | (name, value) :: rest, (_, _) :: _, ⟨hvalue, hrest⟩, ⟨rfl, hb, hbs⟩ =>
    congrArg₂ (fun v entries => (name, v) :: entries) (toValue_of_carries value hvalue hb)
      (toEntries_of_carries rest hrest hbs)

end

/-- What carries a value is no node and no relationship. -/
theorem toGraphValue_of_carries {v : Value} {b : Bolt} (hv : v.Canonical) (hb : Carries v b) :
    toGraphValue b = .scalar v.spelled := by
  have hscalar : toGraphValue b = .scalar b.toValue := by
    cases v with
    | list items =>
      cases b with
      | list bs => rfl
      | _ => exact hb.elim
    | map entries =>
      cases b with
      | map bs => rfl
      | _ => exact hb.elim
    | _ => cases hb; rfl
  rw [hscalar, toValue_of_carries v hv hb]

/-! ### A statement and its answer -/

/-- A parameter is sent as its value is. -/
theorem lookup_ofEntries (name : String) (entries : List (String × Value)) :
    Entries.lookup name (ofEntries entries) = (Entries.lookup name entries).map ofValue := by
  induction entries with
  | nil => rfl
  | cons entry rest ih =>
    obtain ⟨k, v⟩ := entry
    rw [ofEntries, Entries.lookup, Entries.lookup]
    split
    · rfl
    · exact ih

theorem decode_single (column : String) (b : Bolt) :
    decode [column] ⟨[column], [[b]]⟩ = .ok ⟨[Dict.empty.insert column b.toGraphValue]⟩ := by
  have hcolumn : (columns [column] [b]).get? column = some b := Dict.get?_insert_self .empty column b
  have hrow : decodeRow (columns [column] [b]) [column] .empty =
      .ok (Dict.empty.insert column b.toGraphValue) := by
    rw [decodeRow, hcolumn]
    rfl
  have hrows : [[b]].mapM (fun record => decodeRow (columns [column] record) [column] .empty) =
      .ok [Dict.empty.insert column b.toGraphValue] :=
    List.mapM_eq_ok_iff.mpr (.cons hrow .nil)
  rw [decode, hrows]
  rfl

/-- **Values cross the boundary.** Whatever form it has on the wire, a value is received as it was
sent, with timestamp texts for the points in time in it. So a statement that binds the value to a
parameter sends such a form, and when the answer holds one in a column, that is what the row holds. -/
theorem received_spelled {v : Value} (hv : v.Canonical) :
    (∀ b, Carries v b → toGraphValue b = .scalar v.spelled) ∧
      ∀ (statement : Statement) (param column : String),
        statement.params.get? param = some v → statement.returns = [column] →
          ∃ sent, Entries.lookup param (request statement).params = some sent ∧ Carries v sent ∧
            ∀ server b, Carries v b → server (request statement) = .ok ⟨[column], [[b]]⟩ →
              execute server statement = .ok ⟨[Dict.empty.insert column (.scalar v.spelled)]⟩ := by
  refine ⟨fun b => toGraphValue_of_carries hv, fun statement param column hparam hreturns =>
    ⟨ofValue v, ?_, carries_ofValue v, fun server b hb hserver => ?_⟩⟩
  · exact (lookup_ofEntries param statement.params.toList).trans (congrArg (Option.map ofValue) hparam)
  · rw [execute, hserver, hreturns, ← toGraphValue_of_carries hv hb]
    exact decode_single column b

/-- A map of a leap second and a list in which an integer, a float of the same number and a text that
looks like a point in time are told apart. -/
def reading : Value :=
  .map [("at", .dateTime { seconds := 59, nanos := 1500000000 }),
    ("of", .list [.integer 3, .float 3, .string "1970-01-01T00:00:00Z", .null])]

/-- The same with its entries in the other order, as it may be on the wire. -/
def readingOnWire : Bolt :=
  map [("of", list [integer 3, float 3, string "1970-01-01T00:00:00Z", null]),
    ("at", string "1970-01-01T00:00:60.500+00:00")]

theorem received_spelled_reading :
    reading.Canonical ∧ Carries reading readingOnWire ∧
      execute (fun _ => .ok ⟨["x"], [[readingOnWire]]⟩)
          ⟨"RETURN $p AS x", Dict.empty.insert "p" reading, ["x"]⟩ =
        .ok ⟨[Dict.empty.insert "x" (.scalar reading.spelled)]⟩ ∧
      reading.spelled = .map [("at", .string "1970-01-01T00:00:60.500+00:00"),
        ("of", .list [.integer 3, .float 3, .string "1970-01-01T00:00:00Z", .null])] := by
  have hcanonical : reading.Canonical := ⟨by decide, trivial, ⟨trivial, trivial, trivial, trivial,
    trivial⟩, trivial⟩
  have htext : DateTime.format "+00:00" { seconds := 59, nanos := 1500000000 } =
      "1970-01-01T00:00:60.500+00:00" := by decide
  have hat : ofValue (.dateTime { seconds := 59, nanos := 1500000000 }) =
      string "1970-01-01T00:00:60.500+00:00" := congrArg string htext
  have hcarries : Carries reading readingOnWire :=
    ⟨_, .swap .., rfl, hat.symm, rfl, ⟨rfl, rfl, rfl, rfl, trivial⟩, trivial⟩
  obtain ⟨sent, -, -, hreceived⟩ := (received_spelled hcanonical).2
    ⟨"RETURN $p AS x", Dict.empty.insert "p" reading, ["x"]⟩ "p" "x" (Dict.get?_insert_self ..) rfl
  refine ⟨hcanonical, hcarries, hreceived _ readingOnWire hcarries rfl, ?_⟩
  simp [reading, spelled, spelledEntries, spelledItems, htext]

end Bolt

end GraphMapping
