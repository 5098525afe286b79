import GraphMapping.Proofs.Property.Slots
import GraphMapping.Work.Flush

/-!
# Settled entities

An entity is settled when nothing is left to write: no property was removed, and the value of every
property is its baseline. A producer would give another value some day, so this is asked of every
moment. Loading and committing both settle an entity, and bringing it in line with a result is one
of the two. Going back to the baseline settles the properties.

## Main definitions

* `Bag.Settled`, `Entity.Settled`: nothing is left to write.

## Main results

* `Bag.settled_load`, `Bag.settled_commit`, `Bag.settled_reset`: what settles the properties.
* `Entity.settled_refresh`: so does bringing an entity in line with a result.
* `Entity.id_refresh`, `Entity.isSome_id_refresh`: what this does to the id.
-/

namespace GraphMapping

variable {m : Moment}

/-! ### Properties -/

namespace Property

/-- What was loaded is the value at every moment. -/
theorem raw_load (p : Property) (value : Option Value) (m : Moment) :
    (p.load value).raw m = (p.load value).baseline := by
  cases value <;> rfl

/-- What was committed is the value at every moment. -/
theorem raw_commit (p : Property) (m m' : Moment) :
    (p.commit m).raw m' = (p.commit m).baseline := by
  rw [raw, commit]
  cases hassigned : p.assigned <;> simp [raw, hassigned, Source.resolve]

/-- After going back, the baseline is the value at every moment. If a producer was assigned since
the commit, there is a fixed value in its place now. -/
theorem raw_reset (p : Property) (m : Moment) : p.reset.raw m = p.baseline := by
  rw [raw, reset]
  cases hbaseline : p.baseline <;> rfl

end Property

namespace Bag

/-- Every property has its baseline for a value, whatever the moment. -/
def Settled (bag : Bag) : Prop :=
  ∀ name p, bag.properties.get? name = some p → ∀ m, p.raw m = p.baseline

theorem settled_load (bag : Bag) (pairs : List (String × Value)) : (bag.load pairs).Settled := by
  intro name p hp m
  rw [get?_load] at hp
  obtain ⟨q, value, rfl⟩ := Property.exists_of_reload? hp
  exact q.raw_load value m

theorem settled_commit (bag : Bag) (m : Moment) : (bag.commit m).Settled := by
  intro name p hp m'
  rw [get?_properties_commit] at hp
  obtain ⟨q, -, rfl⟩ := Option.map_eq_some_iff.mp hp
  exact q.raw_commit m m'

theorem settled_reset (bag : Bag) : bag.reset.Settled := by
  intro name p hp m
  rw [get?_properties_reset] at hp
  obtain ⟨q, -, rfl⟩ := Option.map_eq_some_iff.mp hp
  exact q.raw_reset m

end Bag

/-! ### Entities -/

namespace Entity

variable {e : Entity} {result : QueryResult}

/-- Nothing is left to write: no property was removed, and every property has its baseline for a
value. -/
structure Settled (e : Entity) : Prop where
  deleted : e.deleted = []
  properties : e.properties.Settled

theorem Settled.releaseVariable (h : e.Settled) : e.releaseVariable.Settled := ⟨h.1, h.2⟩

/-- What a result binds the variable of an entity to, if that is a node or relationship. -/
def returnedParts? (e : Entity) (result : QueryResult) : Option (Int64 × Dict Value) :=
  (e.queryVariable.bind result.first?).bind GraphValue.entityParts?

theorem refresh_eq (e : Entity) (m : Moment) (result : QueryResult) : e.refresh m result =
    match e.returnedParts? result with
    | some (id, properties) => (e.setId id).load properties.toList
    | none => e.commit m := rfl

/-- Bringing an entity in line with a result settles it. If the entity came back, its properties are
loaded; if it did not, what it holds becomes the baseline. -/
theorem settled_refresh (e : Entity) (m : Moment) (result : QueryResult) :
    (e.refresh m result).Settled := by
  rw [refresh_eq]
  split
  · exact ⟨rfl, Bag.settled_load _ _⟩
  · exact ⟨rfl, Bag.settled_commit _ m⟩

theorem id_refresh {id : Int64} (h : e.id = some id) : (e.refresh m result).id = some id := by
  rw [refresh_eq]
  split
  · show e.id.or _ = some id
    rw [h]
    rfl
  · exact h

theorem isSome_id_refresh (h : (e.returnedParts? result).isSome) :
    (e.refresh m result).id.isSome := by
  obtain ⟨parts, hparts⟩ := Option.isSome_iff_exists.mp h
  rw [refresh_eq, hparts]
  show (e.id.or (some parts.1)).isSome
  cases e.id <;> rfl

end Entity

end GraphMapping
