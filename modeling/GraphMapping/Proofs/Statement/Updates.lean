import GraphMapping.Proofs.Statement.SaveBatch

/-!
# What an update assigns

A persisted entity is brought to its current data by assignments. There are three views on its
properties: the changes against the baseline, the data to write, in which nulls are left out, and
the names of removed properties. Assignments are made from the last two. A property that was set to
null is in neither, so its change is not written although it is reported as one.

## Main results

* `Draft.Follows.assigns_value`, `Draft.Follows.assigns_null`: the assignments to an entity.
* `composeSave_assigns`: a field is assigned when it has a value or was removed, and only then.
* `composeSave_omits_null`: a change to null is reported and not written.
-/

namespace GraphMapping

namespace Part

variable {m : Moment} {store : Store}

/-- Among the assignments of several parts, those to a variable are those of its part. -/
theorem mem_assigned_of_name {parts : List Part} (h : (parts.map (·.name)).Nodup) {part : Part}
    (hpart : part ∈ parts) {a : Assignment} (ha : a ∈ parts.flatMap (assigned m store))
    (hname : a.name = part.name) : a ∈ part.assigned m store := by
  obtain ⟨p, hp, hpa⟩ := List.mem_flatMap.mp ha
  have heq : p.name = part.name := (name_of_mem_assigned hpa).symm.trans hname
  rwa [← List.inj_on_of_nodup_map h hp hpart heq]

variable {part : Part} {key : EntityKey} {e : Entity} {id : Int64}

theorem mem_assigned (hmention : part.mention = .entity key) (he : store.get? key = some e)
    (hid : e.id = some id) {a : Assignment} :
    a ∈ part.assigned m store ↔
      (∃ b ∈ part.fields m store, a = ⟨part.name, b.field, some b.param⟩) ∨
        ∃ field ∈ e.deleted, a = ⟨part.name, field, none⟩ := by
  simp only [assigned_eq hmention he hid, List.mem_append, List.mem_map, eq_comm]

/-- Every field with a value has its parameter. -/
theorem exists_field (hmention : part.mention = .entity key) (he : store.get? key = some e)
    {field : String} {value : Value} :
    (∃ b ∈ part.fields m store, b.field = field ∧ b.value = value) ↔
      (e.data m .graph).get? field = some value := by
  rw [Dict.get?_eq_some_iff, ← map_fields hmention he, List.mem_map]
  simp only [Prod.mk.injEq]

end Part

namespace Draft.Follows

variable {m : Moment} {store : Store} {names : Names} {opened : Option (EntityKey × String)}
  {seen : List Endpoint} {parts : List Part} {d : Draft} {part : Part} {key : EntityKey}
  {e : Entity} {id : Int64} {field : String}
  (h : Follows m store names opened seen parts d) (hpart : part ∈ parts)
  (hmention : part.mention = .entity key) (he : store.get? key = some e) (hid : e.id = some id)

include h hpart hmention he hid

theorem assigns_value {value : Value} (hget : (e.data m .graph).get? field = some value) :
    ∃ param, ⟨part.name, field, some param⟩ ∈ d.clauses.assigned ∧
      d.clauses.params.get? param = some value := by
  obtain ⟨b, hb, rfl, rfl⟩ := (Part.exists_field hmention he).mpr hget
  refine ⟨b.param, ?_, ?_⟩
  · rw [h.assigned]
    have hown : ⟨part.name, b.field, some b.param⟩ ∈ part.assigned m store :=
      (Part.mem_assigned hmention he hid).mpr (.inl ⟨b, hb, rfl⟩)
    exact List.mem_flatMap.mpr ⟨part, hpart, hown⟩
  · rw [Dict.get?_eq_some_iff, h.params.mem_iff]
    exact List.mem_flatMap.mpr ⟨part, hpart, List.mem_append_left _ (List.mem_map_of_mem hb)⟩

theorem assigns_null (hfield : field ∈ e.deleted) :
    ⟨part.name, field, none⟩ ∈ d.clauses.assigned := by
  rw [h.assigned]
  have hown : ⟨part.name, field, none⟩ ∈ part.assigned m store :=
    (Part.mem_assigned hmention he hid).mpr (.inr ⟨field, hfield, rfl⟩)
  exact List.mem_flatMap.mpr ⟨part, hpart, hown⟩

/-- Nothing else is assigned to the entity. A field whose value has become null is in neither group,
so the database keeps what it had. -/
theorem of_mem_assigned {a : Assignment} (ha : a ∈ d.clauses.assigned)
    (hname : a.name = part.name) :
    (∃ value, (e.data m .graph).get? a.field = some value) ∨ a.field ∈ e.deleted := by
  rw [h.assigned] at ha
  have hown := Part.mem_assigned_of_name h.distinct hpart ha hname
  rcases (Part.mem_assigned hmention he hid).mp hown with ⟨b, hb, rfl⟩ | ⟨field, hfield, rfl⟩
  · exact .inl ⟨b.value, (Part.exists_field hmention he).mp ⟨b, hb, rfl, rfl⟩⟩
  · exact .inr hfield

end Draft.Follows

/-- **What an update assigns.** To a persisted entity of an accepted batch, every field with a value
is assigned with a parameter bound to that value, and every removed field is set to null. A change
is written exactly when the current value of its field is not null, or the field was removed. -/
theorem composeSave_assigns (m : Moment) {store : Store} {names : Names} {keys : List EntityKey}
    (hnamed : store.NamedBy names) (hok : Batch.check store keys = .ok ()) :
    (composeSave m store names keys).outcome =
        .ok (Batch.draft m store names keys).clauses.toStatement ∧
      ∀ key ∈ Batch.closure store keys, ∀ e id, store.get? key = some e → e.id = some id →
        ∃ name, (composeSave m store names keys).store.nameOf? key = some name ∧
          (∀ field value, (e.data m .graph).get? field = some value →
            ∃ param, ⟨name, field, some param⟩ ∈ (Batch.draft m store names keys).clauses.assigned ∧
              (Batch.draft m store names keys).clauses.params.get? param = some value) ∧
          (∀ field ∈ e.deleted,
            ⟨name, field, none⟩ ∈ (Batch.draft m store names keys).clauses.assigned) ∧
          ∀ field change, (e.changed m).get? field = some change →
            ∃ p, e.properties.properties.get? field = some p ∧ p.change m = change ∧
              ((∃ a ∈ (Batch.draft m store names keys).clauses.assigned,
                  a.name = name ∧ a.field = field) ↔
                (p.value m .graph).isNull = false ∨ field ∈ e.deleted) := by
  obtain ⟨parts, h⟩ := Batch.exists_parts (m := m) hnamed hok
  rw [Batch.composeSave_eq hok]
  refine ⟨rfl, fun key hkey e id he hid => ?_⟩
  obtain ⟨part, hpart, hmention, hname⟩ := h.exists_part hkey
  refine ⟨part.name, hname, fun field value => h.assigns_value hpart hmention he hid,
    fun field => h.assigns_null hpart hmention he hid, fun field change hchange => ?_⟩
  obtain ⟨p, hp, -, hpchange⟩ := Bag.get?_changed.mp hchange
  refine ⟨p, hp, hpchange, ?_⟩
  constructor
  · rintro ⟨a, ha, haname, rfl⟩
    rcases h.of_mem_assigned hpart hmention he hid ha haname with ⟨value, hget⟩ | hfield
    · obtain ⟨p', hp', hpvalue, hnull⟩ := Bag.get?_data.mp hget
      obtain rfl := Option.some.inj (hp.symm.trans hp')
      exact .inl (hpvalue ▸ hnull)
    · exact .inr hfield
  · rintro (hnull | hfield)
    · have hget := Bag.get?_data.mpr ⟨p, hp, rfl, hnull⟩
      obtain ⟨param, hmem, -⟩ := h.assigns_value hpart hmention he hid hget
      exact ⟨_, hmem, rfl, rfl⟩
    · exact ⟨_, h.assigns_null hpart hmention he hid hfield, rfl, rfl⟩

theorem composeSave_assigns_friend :
    ∃ name, (composeSave .epoch friendStore { nodes := 1 } [⟨1⟩]).store.nameOf? ⟨0⟩ = some name ∧
      ∀ field ∈ ["age"], ⟨name, field, none⟩ ∈
        (Batch.draft .epoch friendStore { nodes := 1 } [⟨1⟩]).clauses.assigned := by
  have hok : Batch.check friendStore [⟨1⟩] = .ok () := rfl
  obtain ⟨name, hname, -, hremoved, -⟩ :=
    (composeSave_assigns .epoch friendStore_namedBy hok).2 ⟨0⟩ (by decide) _ 5 rfl rfl
  exact ⟨name, hname, hremoved⟩

/-- A persisted node whose name is set to null. -/
def nulledNode : Except PropertyError Entity :=
  (({ Entity.node "Node" ["Node"] (.empty true) with id := some 5 } : Entity).load
    [("name", .string "x")]).assign "name" .null

/-- A change to null is reported, and nothing is assigned. -/
theorem composeSave_omits_null :
    ∃ e, nulledNode = .ok e ∧ e.id = some 5 ∧ (e.changed .epoch).contains "name" = true ∧
      (⟨[e]⟩ : Store).NamedBy .fresh ∧ Batch.check ⟨[e]⟩ [⟨0⟩] = .ok () ∧
      ⟨0⟩ ∈ Batch.closure ⟨[e]⟩ [⟨0⟩] ∧
      (Batch.draft .epoch ⟨[e]⟩ .fresh [⟨0⟩]).clauses.assigned = [] := by
  refine ⟨_, rfl, rfl, by decide, Store.namedBy_of_nameOf?_eq_none ?_ .fresh, rfl, by decide, rfl⟩
  rintro ⟨_ | n⟩ <;> rfl

end GraphMapping
