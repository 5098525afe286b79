import GraphMapping.Mapper.Loading
import GraphMapping.Proofs.Entity.Settled

/-!
# What counts as clean

A settled property has its baseline for a value, so both are read as the same. Still it counts as
changed if they are not equal, and there is one value that is not equal to itself: the float that is
not a number. Only float properties have it, but text may be read as it. Such a property is reported
as changed right after it was committed or loaded and after every reset, and an entity with one
keeps its own data from then on when it comes back from the database.

## Main definitions

* `Kind.ReadsNaN`: the kind reads the value as the float that is not a number.
* `Bag.HoldsNaN`: so does the property of a name with its baseline.
* `Bag.ReadsAlike`: producers give the same at two moments.

## Main results

* `Kind.beq_toNative_self`: which values are equal to themselves when they are read.
* `Bag.Settled.contains_changed_iff`: what settled properties report.
* `Bag.data_commit`: committing leaves the data as it is.
* `Library.isProtected_iff_of_settled`: when a settled entity is protected.
* `Library.settles_iff`: what committing, loading and going back settle.
* `Library.commit_keeps_unclean`: a commit that settles nothing.
-/

namespace GraphMapping

/-! ### Equality of what is read -/

/-- A float is equal to itself if it is a number. -/
theorem float_beq_self (x : Float) : (x == x) = !x.isNaN := by
  change x.toModel.unpack.beq x.toModel.unpack = !x.toModel.unpack.isNaN
  cases x.toModel.unpack with
  | notANumber => rfl
  | infinity sign => cases sign <;> rfl
  | zero sign => rfl
  | finite sign mantissa exponent positive =>
    have hexponent : compare exponent exponent = .eq := Std.ReflOrd.compare_self
    have hmantissa : compare mantissa mantissa = .eq := Std.ReflOrd.compare_self
    let order := (compare exponent exponent).then (compare mantissa mantissa)
    have horder : order = .eq := by
      change (compare exponent exponent).then (compare mantissa mantissa) = .eq
      rw [hexponent, hmantissa]
      rfl
    -- two negative numbers are compared the other way round
    cases sign with
    | positive =>
      change (some order == some .eq) = true
      rw [horder]
      rfl
    | negative =>
      change (some order.swap == some .eq) = true
      rw [horder]
      rfl

/-- The value is read as the float that is not a number. -/
def Kind.ReadsNaN (kind : Kind) (value : Value) : Prop :=
  kind = .float ∧ ∃ x, Kind.floatOf? value = some x ∧ x.isNaN = true

/-- What is read is equal to itself, unless it is not a number. This is the only value for which a
comparison with the baseline reports a change although nothing has happened. -/
theorem Kind.beq_toNative_self (kind : Kind) (value : Value) :
    (kind.toNative value == kind.toNative value) = true ↔ ¬ kind.ReadsNaN value := by
  have hother : kind ≠ .float →
      ((kind.toNative value == kind.toNative value) = true ↔ ¬ kind.ReadsNaN value) := by
    intro hkind
    refine iff_of_true ?_ fun h => hkind h.1
    change Value.beq _ _ = true
    cases kind with
    | float => exact absurd rfl hkind
    | string => cases h : textOf? value <;> simp [toNative, Value.beq, h]
    | dateTime | timestamp => cases h : dateTimeOf? value <;> simp [toNative, Value.beq, h]
    | integer | increment | boolean => simp [toNative, Value.beq]
  cases kind with
  | float =>
    change (((floatOf? value).getD 0.0) == ((floatOf? value).getD 0.0)) = true ↔ _
    rw [float_beq_self, Bool.not_eq_true', ReadsNaN]
    cases floatOf? value with
    | none => exact iff_of_true (by decide +kernel) (by simp)
    | some x => simp
  | _ => exact hother (by decide)

/-! ### Bags -/

namespace Bag

variable {bag : Bag} {m m' m₁ m₂ : Moment} {name : String}

/-- The baseline of the property is read as the float that is not a number. -/
def HoldsNaN (bag : Bag) (name : String) : Prop :=
  ∃ p, bag.properties.get? name = some p ∧ p.kind.ReadsNaN p.baseline

/-- Settled properties are reported as changed only if they are not equal to themselves. -/
theorem Settled.contains_changed_iff (h : bag.Settled) (m : Moment) (name : String) :
    (bag.changed m).contains name = true ↔ bag.HoldsNaN name := by
  cases hp : bag.properties.get? name with
  | none => simp [Dict.contains, changed, Dict.get?_map, Dict.get?_filter, HoldsNaN, hp]
  | some p =>
    have hread : p.isChanged m = true ↔ p.kind.ReadsNaN p.baseline := by
      rw [Property.isChanged, Property.change, h name p hp m, bne, Bool.not_eq_true',
        ← Bool.not_eq_true, Kind.beq_toNative_self, not_not]
    rw [contains_changed hp, hread]
    simp [HoldsNaN, hp]

theorem Settled.isEmpty_changed_iff (h : bag.Settled) (m : Moment) :
    (bag.changed m).isEmpty = true ↔ ∀ name, ¬ bag.HoldsNaN name := by
  simp only [← h.contains_changed_iff m, Bool.not_eq_true]
  exact Dict.isEmpty_iff

/-- Assigned producers and those that stand in for null give the same at both moments. -/
def ReadsAlike (bag : Bag) (m m' : Moment) : Prop :=
  ∀ name p, bag.properties.get? name = some p → ∀ s, p.assigned = some s ∨ p.standard = some s →
    s.resolve m = s.resolve m'

end Bag

/-- A property shows the same before and after it is committed. -/
theorem Property.value_commit {p : Property} {m m₁ m₂ : Moment}
    (hassigned : ∀ s, p.assigned = some s → s.resolve m = s.resolve m₁)
    (hstandard : ∀ s, p.standard = some s → s.resolve m₂ = s.resolve m₁) (side : Side) :
    (p.commit m).value m₂ side = p.value m₁ side := by
  have hraw : (p.commit m).raw m₂ = p.raw m₁ := by
    rw [raw_commit]
    change p.raw m = p.raw m₁
    rw [raw, raw]
    cases hs : p.assigned with
    | none => rfl
    | some s => exact hassigned s hs
  have helse : (p.commit m).standard.elim .null (Source.resolve m₂) =
      p.standard.elim .null (Source.resolve m₁) := by
    change p.standard.elim .null (Source.resolve m₂) = _
    cases hs : p.standard with
    | none => rfl
    | some s => exact hstandard s hs
  rw [value, value, resolved, resolved, hraw, helse]
  rfl

/-- Committing leaves the data as it is when producers give the same. A commit fixes what a producer
gives at that moment, so the two sides would differ if it gave something else at another one. -/
theorem Bag.data_commit {bag : Bag} {m m₁ m₂ : Moment} (h : bag.ReadsAlike m₁ m)
    (h' : bag.ReadsAlike m₁ m₂) (side : Side) : (bag.commit m).data m₂ side = bag.data m₁ side := by
  refine Dict.ext_get? fun name => ?_
  rw [get?_data_eq, get?_data_eq, get?_properties_commit, Option.map_map]
  refine congrArg _ (Option.map_congr fun p hp => ?_)
  exact Property.value_commit (fun s hs => (h name p hp s (.inl hs)).symm)
    (fun s hs => (h' name p hp s (.inr hs)).symm) side

/-! ### Entities that are loaded again -/

/-- A settled entity keeps its data when it comes back if a scheduled operation covers it, or if one
of its properties is not equal to itself. -/
theorem Library.isProtected_iff_of_settled {e : Entity} (h : e.Settled) (lib : Library)
    (m : Moment) (key : EntityKey) :
    lib.isProtected m key e = true ↔
      lib.work.covers key = true ∨ ∃ name, e.properties.HoldsNaN name := by
  have hempty : (e.changed m).isEmpty = false ↔ ∃ name, e.properties.HoldsNaN name := by
    rw [← Bool.not_eq_true, Entity.changed, h.properties.isEmpty_changed_iff]
    exact not_forall_not
  rw [isProtected, h.deleted, Bool.or_eq_true, Bool.or_eq_true, Bool.not_eq_true', hempty]
  simp

/-- **What settles.** Right after a bag is committed, loaded or set back, a property is reported as
changed exactly if its baseline is read as the float that is not a number. An entity that was just
loaded, committed or brought in line with a result takes on what comes back next, unless a scheduled
operation covers it or it has such a property. Both hold of all producers and moments, since what is
settled does not ask its producers any more. Committing leaves the data as it is when producers give
the same before and after. -/
theorem Library.settles_iff (bag : Bag) (e : Entity) (lib : Library) (key : EntityKey)
    (pairs : List (String × Value)) (result : QueryResult) (m m' : Moment) :
    (∀ settled ∈ [bag.commit m, bag.load pairs, bag.reset],
      (∀ name, (settled.changed m').contains name = true ↔ settled.HoldsNaN name) ∧
      ((settled.changed m').isEmpty = true ↔ ∀ name, ¬ settled.HoldsNaN name)) ∧
    (∀ m₁, bag.ReadsAlike m₁ m → bag.ReadsAlike m₁ m' →
      ∀ side, (bag.commit m).data m' side = bag.data m₁ side) ∧
    (∀ settled ∈ [e.commit m, e.load pairs, e.refresh m result],
      (lib.isProtected m' key settled = true ↔
        lib.work.covers key = true ∨ ∃ name, settled.properties.HoldsNaN name)) := by
  refine ⟨fun settled hmem => ?_, fun m₁ => Bag.data_commit, fun settled hmem => ?_⟩
  · have hsettled : settled.Settled := by
      simp only [List.mem_cons, List.not_mem_nil, or_false] at hmem
      rcases hmem with rfl | rfl | rfl
      · exact bag.settled_commit m
      · exact bag.settled_load pairs
      · exact bag.settled_reset
    exact ⟨hsettled.contains_changed_iff m', hsettled.isEmpty_changed_iff m'⟩
  · have hsettled : settled.Settled := by
      simp only [List.mem_cons, List.not_mem_nil, or_false] at hmem
      rcases hmem with rfl | rfl | rfl
      · exact ⟨rfl, Bag.settled_commit _ m⟩
      · exact ⟨rfl, Bag.settled_load _ pairs⟩
      · exact e.settled_refresh m result
    exact isProtected_iff_of_settled hsettled lib m' key

/-- A level, which is three unless it is known, and a ratio that is not a number. -/
def sensorProperties : List (String × Property) :=
  [("level", (Property.declared .integer).withDefaultProducer (.const (.integer 3))),
    ("ratio", (Property.declared .float).assign (.producer (.const (.float (0.0 / 0.0)))))]

/-- A node with these properties. -/
def sensor : Entity := .node "Sensor" ["Sensor"] (.ofDeclared sensorProperties false)

theorem sensor_readsAlike (m m' : Moment) : sensor.properties.ReadsAlike m m' := by
  intro name p hp s hs
  have hmem : (name, p) ∈ sensorProperties := Dict.mem_of_get?_ofList hp
  simp only [sensorProperties, List.mem_cons, List.not_mem_nil, or_false] at hmem
  rcases hmem with hentry | hentry
  · obtain ⟨-, rfl⟩ := Prod.mk.inj hentry
    rcases hs with hs | hs
    · cases hs
    · obtain rfl := Option.some.inj hs
      rfl
  · obtain ⟨-, rfl⟩ := Prod.mk.inj hentry
    rcases hs with hs | hs
    · obtain rfl := Option.some.inj hs
      rfl
    · cases hs

/-- The ratio comes back as the text for what is not a number. It counts as changed at once, and the
sensor does not take on what comes back next. Committing leaves the data as it is. -/
theorem Library.settles_iff_sensor :
    let lib : Library := ⟨.empty true, .empty, ⟨[sensor]⟩⟩
    let loaded := sensor.load [("ratio", .string "nan")]
    (loaded.properties.changed .epoch).contains "ratio" = true ∧
      (loaded.properties.changed .epoch).isEmpty = false ∧
      lib.isProtected .epoch ⟨0⟩ loaded = true ∧
      ∀ side, (sensor.properties.commit .epoch).data .epoch side =
        sensor.properties.data .epoch side := by
  intro lib loaded
  obtain ⟨hbags, hdata, hentities⟩ := settles_iff sensor.properties sensor lib ⟨0⟩
    [("ratio", .string "nan")] .empty .epoch .epoch
  have hratio : loaded.properties.HoldsNaN "ratio" :=
    ⟨_, rfl, rfl, _, rfl, by decide +kernel⟩
  obtain ⟨hchanged, hempty⟩ := hbags loaded.properties (by simp [loaded, Entity.load])
  have halike := sensor_readsAlike .epoch .epoch
  refine ⟨(hchanged "ratio").mpr hratio, ?_, ?_, hdata .epoch halike halike⟩
  · exact Bool.eq_false_iff.mpr fun hnone => hempty.mp hnone "ratio" hratio
  · exact (hentities loaded (by simp [loaded])).mpr (.inr ⟨"ratio", hratio⟩)

/-- The sensor is committed, and nothing is scheduled. Still its ratio counts as changed, and it
does not take on the ratio that comes back. -/
theorem Library.commit_keeps_unclean :
    let committed := sensor.commit .epoch
    let lib : Library := ⟨.empty true, .empty, ⟨[committed]⟩⟩
    (committed.changed .epoch).contains "ratio" = true ∧
      lib.isProtected .epoch ⟨0⟩ committed = true ∧
      ((((lib.refresh .epoch ⟨0⟩ (.ofList [("ratio", .float 0.5)])).store.get? ⟨0⟩).bind
        fun e => e.get? .epoch "ratio").any (· == .float 0.5)) = false := by
  decide +kernel

end GraphMapping
