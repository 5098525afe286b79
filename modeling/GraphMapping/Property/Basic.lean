import GraphMapping.Property.Kind

/-!
# Properties

A property is a kind together with what has been assigned to it, the baseline that changes are
measured against, and what it resolves to while nothing is assigned. What is assigned may be a
producer, which is run whenever the property is read; so reading takes the moment it happens at.

The name of a property is the key it is stored under and not part of it.

## Main definitions

* `Moment`: what a producer can read.
* `Source`: a fixed value or a producer.
* `Property`: kind, assignment, baseline and default.
* `Property.value`: the resolved value, for either side.
* `Property.isChanged`, `Property.commit`, `Property.reset`: tracking against the baseline.
-/

namespace GraphMapping

open Calendar (DateTime)

/-! ### Sources of values -/

/-- What a producer can read: the clock, and the application's own readings by name. -/
structure Moment where
  now : DateTime
  readings : String → Value

/-- A moment just after, at which the clock shows a later time. -/
def Moment.next (m : Moment) : Moment := { m with now := m.now.next }

/-- Produces a value whenever it is asked for one. -/
structure Producer where
  run : Moment → Value

namespace Producer

/-- Always the same value. -/
def const (value : Value) : Producer := ⟨fun _ => value⟩

/-- The current time. -/
def now : Producer := ⟨fun m => .dateTime m.now⟩

/-- The current reading of an application's own source. -/
def reading (name : String) : Producer := ⟨fun m => m.readings name⟩

end Producer

/-- Where a property's value comes from. -/
inductive Source where
  | fixed (value : Value)
  | producer (p : Producer)

namespace Source

/-- The value at a moment. -/
def resolve (m : Moment) : Source → Value
  | fixed value => value
  | producer p => p.run m

/-- The value is the same at every moment. -/
def IsConstant (s : Source) : Prop := ∀ m m', s.resolve m = s.resolve m'

end Source

/-! ### Properties -/

/-- A property of an entity. -/
structure Property where
  kind : Kind
  /-- What has been assigned, if anything. -/
  assigned : Option Source
  /-- The value at the last commit. -/
  baseline : Value
  /-- What the property resolves to while its own value is null. -/
  standard : Option Source
  /-- Assignments are ignored. -/
  immutable : Bool
  /-- The property was never declared; its kind was inferred from a value. -/
  inferred : Bool

/-- A change against the baseline, on the native side. -/
structure Change where
  before : Value
  after : Value

instance : BEq Change := ⟨fun a b => a.before == b.before && a.after == b.after⟩

namespace Property

/-! ### Declaration -/

/-- A declared property of a kind. A timestamp resolves to the current time and cannot be
assigned. -/
def declared (kind : Kind) : Property where
  kind
  assigned := none
  baseline := .null
  standard := if kind = .timestamp then some (.producer .now) else none
  immutable := kind = .timestamp
  inferred := false

/-- Resolve to `value` while nothing else is there. -/
def withDefault (p : Property) (value : Value) : Property :=
  { p with standard := some (.fixed value) }

/-- Resolve to what `producer` gives while nothing else is there. -/
def withDefaultProducer (p : Property) (producer : Producer) : Property :=
  { p with standard := some (.producer producer) }

/-- Ignore assignments. -/
def asImmutable (p : Property) : Property := { p with immutable := true }

/-! ### Assignment -/

/-- The property after an assignment, which an immutable one ignores. -/
def assign (p : Property) (source : Source) : Property :=
  if p.immutable then p else { p with assigned := some source }

/-- An undeclared property of an inferred kind with its first assignment. -/
def ofAssignment (kind : Kind) (source : Source) : Property :=
  { declared kind with inferred := true }.assign source

/-- Take a loaded value, or none, as assignment and baseline both, immutable or not. -/
def load (p : Property) (value : Option Value) : Property :=
  { p with assigned := value.map .fixed, baseline := value.getD .null }

/-! ### Reading -/

/-- The value as assigned: producers are run, defaults and coercion are not applied. -/
def raw (p : Property) (m : Moment) : Value :=
  p.assigned.elim .null (Source.resolve m)

/-- The value before coercion: the default stands in for null. -/
def resolved (p : Property) (m : Moment) : Value :=
  if (p.raw m).isNull then p.standard.elim .null (Source.resolve m) else p.raw m

/-- The value on one side. -/
def value (p : Property) (m : Moment) (side : Side) : Value :=
  p.kind.render (p.resolved m) side

/-! ### Change tracking -/

/-- The assigned value against the baseline, both coerced. -/
def change (p : Property) (m : Moment) : Change :=
  ⟨p.kind.toNative p.baseline, p.kind.toNative (p.raw m)⟩

/-- The assigned value differs from the baseline. -/
def isChanged (p : Property) (m : Moment) : Bool :=
  (p.change m).after != (p.change m).before

/-- Make the assigned value the baseline; a producer is replaced by what it gives now. -/
def commit (p : Property) (m : Moment) : Property :=
  { p with
    assigned := p.assigned.map fun s => .fixed (s.resolve m)
    baseline := p.raw m }

/-- Go back to the baseline. -/
def reset (p : Property) : Property :=
  { p with assigned := if p.baseline.isNull then none else some (.fixed p.baseline) }

end Property

end GraphMapping
