import GraphMapping.Proofs.Entity.Reloading
import GraphMapping.Proofs.Mapper.Identity
import GraphMapping.Proofs.Property.StoredTimes
import GraphMapping.Proofs.Work.Refreshes

/-!
# Points in time that come back from the database

What a flush writes for a property is its graph value, and what comes back for the property is
loaded into it. For a point in time that is a number of seconds, so that after a flush whose result
echoes the number the property is what this number is read as.

## Main definitions

* `Entity.HasTime`, `Entity.HasNumber`: before and after.
* `Mapper.Stores`: a flush that writes a point in time and gets its number back.
* `Entity.Recovers`: what the property is then.
* `StoredTime`: what becomes of a point in time that is stored.

## Main results

* `Mapper.Stores.hasNumber`: after the flush the number has been loaded.
* `storedTime`: which points in time come back, and which leave the graph data as they were.
-/

namespace GraphMapping

open Calendar (DateTime lastSecond)

variable {m : Moment} {key : EntityKey} {name : String} {t : DateTime}

/-! ### Before and after -/

/-- The property of the name holds points in time, and this one is its value. -/
structure Entity.HasTime (e : Entity) (m : Moment) (name : String) (p : Property) (t : DateTime) :
    Prop where
  property : e.properties.properties.get? name = some p
  kind : p.kind.HoldsTime
  value : p.value m .native = .dateTime t

/-- The property of the name holds points in time, and the number of this one has been loaded. -/
def Entity.HasNumber (e : Entity) (name : String) (t : DateTime) : Prop :=
  ∃ p : Property, p.kind.HoldsTime ∧
    e.properties.properties.get? name = some (p.load (some (.float (epochSeconds t))))

namespace Entity

variable {e : Entity} {p : Property}

theorem HasTime.value_graph (h : e.HasTime m name p t) :
    p.value m .graph = .float (epochSeconds t) :=
  Kind.toGraph_of_toNative h.kind h.value

theorem HasTime.get?_data (h : e.HasTime m name p t) :
    (e.data m .graph).get? name = some (.float (epochSeconds t)) :=
  Bag.get?_data.mpr ⟨p, h.property, h.value_graph, rfl⟩

theorem HasTime.refresh (h : e.HasTime m name p t) {result : QueryResult} {id : Int64}
    {properties : Dict Value} (hreturned : e.returnedParts? result = some (id, properties))
    (hecho : properties.get? name = some (p.value m .graph)) (m' : Moment) :
    (e.refresh m' result).HasNumber name t := by
  rw [h.value_graph] at hecho
  exact ⟨p, h.kind, get?_refresh hreturned h.property hecho⟩

theorem HasNumber.get?_eq (h : e.HasNumber name t) (m : Moment) :
    e.get? m name = some ((ofEpochSeconds? (epochSeconds t)).elim .null .dateTime) := by
  obtain ⟨p, hkind, hp⟩ := h
  rw [get?, Bag.get?, hp, Option.map_some, Property.value_load rfl, ← Kind.toNative_float hkind]
  rfl

theorem HasNumber.get?_iff (h : e.HasNumber name t) (m : Moment) {t' : DateTime} :
    e.get? m name = some (.dateTime t') ↔ ofEpochSeconds? (epochSeconds t) = some t' := by
  rw [h.get?_eq]
  cases ofEpochSeconds? (epochSeconds t) <;> simp

theorem HasNumber.get?_data_iff (h : e.HasNumber name t) (m : Moment) :
    (e.data m .graph).get? name = some (.float (epochSeconds t)) ↔
      Kind.dateTime.toGraph (.float (epochSeconds t)) = .float (epochSeconds t) := by
  obtain ⟨p, hkind, hp⟩ := h
  have hvalue : (p.load (some (.float (epochSeconds t)))).value m .graph =
      p.kind.toGraph (.float (epochSeconds t)) := Property.value_load rfl
  rw [data, Bag.get?_data, Kind.toGraph_float_iff (.inl rfl), ← Kind.toGraph_float_iff hkind,
    ← hvalue]
  constructor
  · rintro ⟨q, hq, hgraph, -⟩
    obtain rfl := Option.some.inj (hp.symm.trans hq)
    exact hgraph
  · exact fun hgraph => ⟨_, hp, hgraph, rfl⟩

end Entity

/-! ### Flushes -/

namespace Mapper

variable {σ : Type} {mapper : Mapper σ}

/-- Sending writes a point in time, what comes back for it is what was written, and neither hooks
that are called after the statement nor later operations touch it. -/
structure Stores (mapper : Mapper σ) (m : Moment) (key : EntityKey) (name : String) (t : DateTime) :
    Prop where
  ok : ∃ response, (mapper.send m).1 = .ok response
  hooks : mapper.hooks.Spares name
  echoed : ∃ turn back reply st, mapper.Answers m turn back reply st ∧
    turn.op.Targets turn.state.store key ∧
    (∀ turn' ∈ back, ¬ turn'.op.Touches turn'.state.store key) ∧
    ∃ e p id properties, st.store.get? key = some e ∧ e.HasTime m name p t ∧
      e.returnedParts? reply.result = some (id, properties) ∧
      properties.get? name = some (p.value m .graph)

/-- The number of the point in time has been loaded. -/
theorem Stores.hasNumber (h : mapper.Stores m key name t) :
    ∃ e, (mapper.send m).2.store.get? key = some e ∧ e.HasNumber name t := by
  obtain ⟨response, hok⟩ := h.ok
  obtain ⟨turn, back, reply, st, ⟨⟨front, hturns⟩, hanswer⟩, htargets, hnot, e, p, id, properties,
    he, htime, hreturned, hecho⟩ := h.echoed
  rw [htime.value_graph] at hecho
  obtain ⟨st', hrun⟩ := exists_runOperations hok
  obtain ⟨done, st₁, hdone⟩ := (turns_of_ok hrun).2 turn (by
    rw [← Mapper.turns, hturns]
    simp)
  obtain ⟨e₁, he₁, hp₁⟩ := Reply.get?_runOperation h.hooks hanswer htargets
    (congrArg Prod.fst hdone) he htime.property hreturned hecho
  have hlater := runOperations_rel_of_turns
    (R := fun st st' => (st'.store.get? key).map Entity.releaseVariable =
      (st.store.get? key).map Entity.releaseVariable)
    (fun _ => rfl) (fun _ _ _ h h' => h'.trans h) hturns
    (fun turn' hturn' => get?_runOperation_of_not_touches (hnot turn' hturn')) {}
  rw [he₁, Option.map_some] at hlater
  exact ⟨e₁.releaseVariable, (get?_send rfl key).trans hlater, p, htime.kind, hp₁⟩

end Mapper

/-! ### What becomes of a stored point in time -/

/-- What a property that the stored number came back for is afterwards. -/
structure Entity.Recovers (e : Entity) (name : String) (t : DateTime) : Prop where
  /-- It is the point in time that was set exactly if this is told. -/
  native : ∀ m, e.get? m name = some (.dateTime t) ↔ Told t
  /-- A point in time that is told leaves the graph data as they were. -/
  told : Told t → ∀ m, (e.data m .graph).get? name = some (.float (epochSeconds t))
  /-- So do the others, as long as the number stays in the range, leap seconds near 1970 apart. -/
  graph : t.nanos < 10 ^ 9 ∨ carriedSecond t < -2 ^ 23 ∨ 2 ^ 23 ≤ carriedSecond t →
    ∀ m, (e.data m .graph).get? name = some (.float (epochSeconds t)) ↔ StaysInRange t
  /-- Of a number that does not, nothing is read. -/
  lost : ¬StaysInRange t → ∀ m, e.get? m name = some .null
  /-- A leap second near 1970 comes back as what is as much later. -/
  leap : 10 ^ 9 ≤ t.nanos → -2 ^ 23 ≤ carriedSecond t → carriedSecond t < 2 ^ 23 →
    ∃ t', t'.seconds = t.seconds + 1 ∧ t'.nanos + 10 ^ 9 = t.nanos ∧ ∀ m,
      e.get? m name = some (.dateTime t') ∧
        ((e.data m .graph).get? name = some (.float (epochSeconds t)) ↔
          epochSeconds t' = epochSeconds t)

theorem Entity.HasNumber.recovers {e : Entity} (h : e.HasNumber name t) : e.Recovers name t where
  native m := (h.get?_iff m).trans ofEpochSeconds?_epochSeconds_iff
  told htold m := (h.get?_data_iff m).mpr <| (Kind.toGraph_float_iff (.inl rfl)).mpr
    ⟨t, ofEpochSeconds?_epochSeconds_iff.mpr htold, rfl⟩
  graph ht m := (h.get?_data_iff m).trans (Kind.toGraph_epochSeconds_iff (.inl rfl) ht)
  lost hnot m := by
    have hnone : ofEpochSeconds? (epochSeconds t) = none :=
      Option.eq_none_iff_forall_ne_some.mpr fun t' hread =>
        hnot (exists_ofEpochSeconds?_epochSeconds_iff.mp ⟨t', hread⟩)
    rw [h.get?_eq, hnone, Option.elim_none]
  leap hn hlow hhigh := by
    obtain ⟨t', hread, hseconds, hnanos⟩ := exists_ofEpochSeconds?_leap hn hlow hhigh
    refine ⟨t', hseconds, hnanos, fun m => ⟨(h.get?_iff m).mpr hread, ?_⟩⟩
    rw [h.get?_data_iff m, Kind.toGraph_float_iff (.inl rfl), hread]
    simp

/-- What becomes of a point in time that is stored as a number. -/
structure StoredTime (t : DateTime) : Prop where
  /-- Reading what is stored gives the point in time back exactly if it is told. -/
  native : ∀ kind : Kind, kind.HoldsTime →
    (kind.toNative (kind.toGraph (.dateTime t)) = .dateTime t ↔ Told t)
  /-- Points in time that are told are those that some double is read as. -/
  number : Told t ↔ ∃ x, ofEpochSeconds? x = some t
  /-- Within `2 ^ 23` seconds of 1970 all but leap seconds are told. -/
  near : -2 ^ 23 ≤ t.seconds → t.seconds < 2 ^ 23 → t.nanos < 10 ^ 9 → Told t
  /-- Whole seconds are told. -/
  whole : t.nanos = 0 → Told t
  /-- The number is what the graph data have before. -/
  written : ∀ (e : Entity) (m : Moment) (name : String) (p : Property), e.HasTime m name p t →
    (e.data m .graph).get? name = some (.float (epochSeconds t))
  /-- Bringing an entity in line with a result that echoes the number. -/
  refreshed : ∀ (e : Entity) (m m' : Moment) (name : String) (p : Property) (result : QueryResult)
    (id : Int64) (properties : Dict Value), e.HasTime m name p t →
      e.returnedParts? result = some (id, properties) →
        properties.get? name = some (p.value m .graph) → (e.refresh m' result).Recovers name t
  /-- A flush whose result echoes the number. -/
  flushed : ∀ {σ : Type} (mapper : Mapper σ) (m : Moment) (key : EntityKey) (name : String),
    mapper.Stores m key name t →
      ∃ e, (mapper.send m).2.store.get? key = some e ∧ e.Recovers name t

/-- **Points in time survive as far as doubles tell them.** A double of epoch seconds gives every
second as many binary digits behind the point as its distance from 1970 leaves; a point in time
comes back exactly if its nanoseconds are those of a fraction with so many digits. -/
theorem storedTime (t : DateTime) : StoredTime t where
  native kind hkind := by
    have hnative : kind.toNative (.dateTime t) = .dateTime t := by
      rcases hkind with rfl | rfl <;> rfl
    rw [Kind.toGraph_of_toNative hkind hnative, Kind.toNative_float_iff hkind,
      ofEpochSeconds?_epochSeconds_iff]
  number := ⟨fun htold => ⟨_, ofEpochSeconds?_epochSeconds_iff.mpr htold⟩,
    fun ⟨_, hread⟩ => told_of_ofEpochSeconds? hread⟩
  near hlow hhigh := told_of_near (near_iff.mpr ⟨hlow, hhigh⟩)
  whole := told_of_whole
  written _ _ _ _ h := h.get?_data
  refreshed _ _ m' _ _ _ _ _ h hreturned hecho := (h.refresh hreturned hecho m').recovers
  flushed _ _ _ _ h := by
    obtain ⟨e, he, hnumber⟩ := h.hasNumber
    exact ⟨e, he, hnumber.recovers⟩

/-- A time that a double tells: the fraction is the 517815th of `2 ^ 22` parts of the second. -/
def sightingTime : DateTime := ⟨1700000000, 123456717, by decide⟩

/-- A new node gets a time from a hook when it is sent, and the time comes back. -/
def sighting : Mapper Unit where
  settings := {}
  catalog := .empty true
  store := ⟨[.node "Node" ["Node"] (.empty true)]⟩
  hooks := (Hooks.empty.register "Node" .beforeCreate fun _ e _ app =>
    ⟨(e.assign "seen" (.dateTime sightingTime)).toOption.getD e, app, none⟩).2
  work := { operations := [⟨⟨0⟩, .save, .scheduled, []⟩] }
  connection :=
    { answers := [fun _ => .ok ⟨[.ofList [("n0", .node ⟨7, ["Node"], .ofList
        [("seen", .float (epochSeconds sightingTime))]⟩)]]⟩] }
  app := ()

theorem storedTime_sighting : sighting.Stores .epoch ⟨0⟩ "seen" sightingTime ∧
    ∃ e, (sighting.send .epoch).2.store.get? ⟨0⟩ = some e ∧
      e.get? .epoch "seen" = some (.dateTime sightingTime) := by
  have hspares : sighting.hooks.Spares "seen" := ⟨nofun, nofun⟩
  have hstores : sighting.Stores .epoch ⟨0⟩ "seen" sightingTime :=
    ⟨⟨_, rfl⟩, hspares, _, [], _, _, ⟨⟨[], rfl⟩, rfl⟩, ⟨rfl, .inl rfl⟩, nofun, _, _, _, _, rfl,
      ⟨rfl, .inl rfl, rfl⟩, rfl, rfl⟩
  have htold : Told sightingTime := ⟨by decide, 517815, by decide, by decide⟩
  obtain ⟨e, he, hrecovers⟩ := (storedTime _).flushed sighting .epoch ⟨0⟩ "seen" hstores
  exact ⟨hstores, e, he, (hrecovers.native .epoch).mpr htold⟩

/-- Other nanoseconds are lost, leap seconds come back later and with another number, and at the end
of the range, which a leap second may be carried to, nothing comes back. -/
theorem storedTime_changes :
    Kind.dateTime.toNative (Kind.dateTime.toGraph (.dateTime ⟨1700000000, 123456789, by decide⟩)) =
        .dateTime ⟨1700000000, 123456717, by decide⟩ ∧
      (¬∀ t, Kind.dateTime.toNative (Kind.dateTime.toGraph (.dateTime t)) = .dateTime t) ∧
      Kind.dateTime.toNative (Kind.dateTime.toGraph (.dateTime ⟨-1, 1000000001, by decide⟩)) =
        .dateTime ⟨0, 1, by decide⟩ ∧
      Kind.dateTime.toGraph (Kind.dateTime.toGraph (.dateTime ⟨-1, 1000000001, by decide⟩)) ≠
        Kind.dateTime.toGraph (.dateTime ⟨-1, 1000000001, by decide⟩) ∧
      Kind.dateTime.toNative (Kind.dateTime.toGraph
        (.dateTime ⟨lastSecond, 999511719, by decide⟩)) = .null ∧
      Kind.dateTime.toNative (Kind.dateTime.toGraph
        (.dateTime ⟨lastSecond - 1, 1999999999, by decide⟩)) = .null := by
  have hread : Kind.dateTime.toNative (Kind.dateTime.toGraph
      (.dateTime ⟨1700000000, 123456789, by decide⟩)) =
        .dateTime ⟨1700000000, 123456717, by decide⟩ := rfl
  refine ⟨hread, fun hall => ?_, rfl, fun hgraph => ?_, rfl, rfl⟩
  · have htime := Value.dateTime.inj (hread.symm.trans (hall _))
    exact absurd (congrArg DateTime.nanos htime) (by decide)
  · have hbits := congrArg Float.toBits (Value.float.inj hgraph)
    exact absurd hbits (by decide)

end GraphMapping
