import GraphMapping.Calendar.Date

/-!
# Points in time

A point in time is a number of whole seconds from the start of 1970 and a number of nanoseconds
into that second. A leap second has no number of its own: it is told as a nanosecond count from one
to two thousand million on the second before it. Such a count may stand with any second, since it
can be set by itself; what is made from a timestamp has one only where leap seconds come, at the
last second of a minute. The years run from -262143 to 262142.

## Main definitions

* `DateTime`: a point in time, with the proof that it lies in the range.
* `DateTime.ofTimestamp?`: the point in time at given seconds and nanoseconds.
* `DateTime.next`: a later point in time.
-/

namespace GraphMapping.Calendar

/-- The first second that can be told. -/
def firstSecond : Int := -8334601228800

/-- The last second that can be told. -/
def lastSecond : Int := 8210266876799

/-- The seconds are in range, and the nanoseconds are less than two seconds. -/
def InRange (seconds : Int) (nanos : Nat) : Prop :=
  firstSecond ≤ seconds ∧ seconds ≤ lastSecond ∧ nanos < 2000000000

instance (seconds : Int) (nanos : Nat) : Decidable (InRange seconds nanos) :=
  inferInstanceAs (Decidable (_ ∧ _ ∧ _))

/-- A point in time, in coordinated universal time. -/
structure DateTime where
  /-- Whole seconds from the start of 1970, negative before it. -/
  seconds : Int
  /-- Nanoseconds into the second. -/
  nanos : Nat
  inRange : InRange seconds nanos := by decide
deriving DecidableEq

namespace DateTime

/-- The start of 1970. -/
def epoch : DateTime := { seconds := 0, nanos := 0 }

instance : Inhabited DateTime := ⟨epoch⟩

/-- The point in time at the given seconds and nanoseconds, if it is in range and a leap second, if
it is one, comes at the end of a minute. -/
def ofTimestamp? (seconds : Int) (nanos : Nat) : Option DateTime :=
  if h : InRange seconds nanos ∧ (nanos < 1000000000 ∨ seconds % 60 = 59) then
    some ⟨seconds, nanos, h.1⟩
  else none

/-- A microsecond later, or at the next second if that comes first; at the end of the range time
stands still. -/
def next (t : DateTime) : DateTime :=
  ((ofTimestamp? t.seconds (t.nanos + 1000)).orElse fun _ =>
    ofTimestamp? (t.seconds + 1) 0).getD t

/-- A second before every point in time. -/
def beforeRange : Int := firstSecond - 1

/-- A second after every point in time. -/
def afterRange : Int := lastSecond + 1

/-- The day, counted from 1 January 1970. -/
def dayNumber (t : DateTime) : Int := t.seconds.fdiv 86400

/-- The second of the day. -/
def secondOfDay (t : DateTime) : Nat := (t.seconds.fmod 86400).toNat

/-- Within a second there is a point in time for every nanosecond. -/
theorem ofTimestamp?_of_lt {seconds : Int} {nanos : Nat} (h : InRange seconds nanos)
    (hn : nanos < 1000000000) : ofTimestamp? seconds nanos = some ⟨seconds, nanos, h⟩ :=
  dif_pos ⟨h, .inl hn⟩

theorem ofTimestamp?_eq_some {seconds : Int} {nanos : Nat} {t : DateTime}
    (h : ofTimestamp? seconds nanos = some t) : t.seconds = seconds ∧ t.nanos = nanos := by
  unfold ofTimestamp? at h
  split at h
  · obtain rfl := Option.some.inj h
    exact ⟨rfl, rfl⟩
  · simp at h

end DateTime

end GraphMapping.Calendar
