import GraphMapping.Schema

/-!
# Entities of a schema

A new entity has the name and the declared properties of its schema. Labels that it is given replace
those of the schema, and of a relationship only the first one is left.

A catalog keeps schemas under their own names, so a type name is the name of the schema that it
resolves to, whether the schema is generic, registered, or made up for the name.

## Main definitions

* `Schema.Makes`: what a new entity has from its schema.
* `Catalog.Named`: schemas are registered under their own names.

## Main results

* `Schema.makes_of_instantiate`: entities are made after their schemas.
* `Schema.exists_instantiate`: an entity without properties can be made.
* `Catalog.resolve_cases`, `Catalog.kind_resolve`: what a type name resolves to, and of which kind.
* `Catalog.name_resolve`: a type name resolves to a schema of this name.
-/

namespace GraphMapping

namespace Schema

variable {schema : Schema} {new : NewEntity} {e : Entity}

/-- The entity is a new one of the schema. -/
structure Makes (schema : Schema) (new : NewEntity) (e : Entity) : Prop where
  id : e.id = new.id
  typeName : e.typeName = schema.name
  queryVariable : e.queryVariable = none
  properties : e.properties =
    (Bag.ofDeclared schema.declared schema.allowUndefined).load new.properties
  node : schema.kind = .node → new.start = none ∧ e.shape = .node ∧
    e.labels = normalizeLabels (new.labels.getD schema.labels)
  relationship : schema.kind = .relationship → e.shape = .relationship new.start new.finish ∧
    e.labels = [(normalizeLabels (new.labels.getD schema.labels)).head?.getD schema.name]

theorem makes_of_instantiate (h : schema.instantiate new = .ok e) : schema.Makes new e := by
  rw [instantiate] at h
  split at h
  · cases h
  · cases hkind : schema.kind with
    | node =>
      simp only [hkind] at h
      split at h
      · cases h
      · rename_i hends
        obtain rfl := Except.ok.inj h
        rw [Bool.or_eq_true, not_or] at hends
        have hstart : new.start = none := Option.not_isSome_iff_eq_none.mp hends.1
        exact ⟨rfl, rfl, rfl, rfl, fun _ => ⟨hstart, rfl, rfl⟩, fun hrel => by simp [hkind] at hrel⟩
    | relationship =>
      simp only [hkind] at h
      obtain rfl := Except.ok.inj h
      exact ⟨rfl, rfl, rfl, rfl, fun hnode => by simp [hkind] at hnode, fun _ => ⟨rfl, rfl⟩⟩

theorem Makes.kind (h : schema.Makes new e) : e.kind = schema.kind := by
  cases hkind : schema.kind with
  | node => rw [Entity.kind, Entity.isNode, (h.node hkind).2.1, if_pos rfl]
  | relationship => simp [Entity.kind, Entity.isNode, (h.relationship hkind).1]

/-- An entity without properties can be made of any schema that leaves its ends to it. What refuses
an entity is a value that cannot be assigned, or an end of a node, and there is neither. -/
theorem exists_instantiate (hnew : new.properties = [])
    (hends : schema.kind = .node → new.start = none ∧ new.finish = none) :
    ∃ e, schema.instantiate new = .ok e := by
  rw [instantiate, hnew, show schema.refused? [] = none from rfl]
  cases hkind : schema.kind with
  | node =>
    obtain ⟨hstart, hfinish⟩ := hends hkind
    simp only [hstart, hfinish, Option.isSome_none, Bool.or_self, Bool.false_eq_true, if_false]
    exact ⟨_, rfl⟩
  | relationship => exact ⟨_, rfl⟩

end Schema

namespace Catalog

variable {catalog : Catalog} {schema : Schema}

/-- Schemas are registered under their own names. -/
def Named (catalog : Catalog) : Prop :=
  ∀ name schema, catalog.schemas.get? name = some schema → schema.name = name

theorem Named.empty (allowUndefined : Bool) : (Catalog.empty allowUndefined).Named := nofun

theorem Named.register (h : catalog.Named) (schema : Schema) : (catalog.register schema).Named := by
  intro name other hother
  rw [Catalog.register] at hother
  by_cases hname : name = schema.name
  · rw [hname, Dict.get?_insert_self] at hother
    rw [hname, Option.some.inj hother]
  · rw [Dict.get?_insert_of_ne _ hname] at hother
    exact h name other hother

theorem resolve_cases (catalog : Catalog) (name : String) (kind : EntityKind) :
    (name = genericNodeName ∧ catalog.resolve name kind = catalog.generic .node) ∨
    (name = genericRelationshipName ∧ catalog.resolve name kind = catalog.generic .relationship) ∨
    (name ≠ genericNodeName ∧ name ≠ genericRelationshipName ∧
      catalog.schemas.get? name = some (catalog.resolve name kind)) ∨
    (name ≠ genericNodeName ∧ name ≠ genericRelationshipName ∧ catalog.schemas.get? name = none ∧
      catalog.resolve name kind = { (catalog.generic kind).withLabels
        (match kind with | .node => deriveLabels name | .relationship => [name]) with
        name := name }) := by
  rw [resolve.eq_def, get?]
  by_cases hnode : name = genericNodeName
  · exact .inl ⟨hnode, by rw [if_pos hnode]⟩
  by_cases hrel : name = genericRelationshipName
  · exact .inr (.inl ⟨hrel, by rw [if_neg hnode, if_pos hrel]⟩)
  rw [if_neg hnode, if_neg hrel]
  cases hschema : catalog.schemas.get? name with
  | some schema => exact .inr (.inr (.inl ⟨hnode, hrel, rfl⟩))
  | none => exact .inr (.inr (.inr ⟨hnode, hrel, rfl, rfl⟩))

/-- A type name resolves to a schema of this name. This is so for the two generic names and for a
registered one, and for any other a schema is made up that has the name. -/
theorem name_resolve (h : catalog.Named) (name : String) (kind : EntityKind) :
    (catalog.resolve name kind).name = name := by
  rcases catalog.resolve_cases name kind with ⟨rfl, hresolve⟩ | ⟨rfl, hresolve⟩ |
    ⟨-, -, hschema⟩ | ⟨-, -, -, hresolve⟩
  · rw [hresolve]
    rfl
  · rw [hresolve]
    rfl
  · exact h name _ hschema
  · rw [hresolve]

/-- The kind of what a type name resolves to, when the name is not registered for the other kind. -/
theorem kind_resolve {name : String} {kind : EntityKind}
    (h : ∀ schema, catalog.schemas.get? name = some schema → schema.kind = kind) :
    (catalog.resolve name kind).kind =
      if name = genericNodeName then .node
      else if name = genericRelationshipName then .relationship else kind := by
  rcases catalog.resolve_cases name kind with ⟨rfl, hresolve⟩ | ⟨rfl, hresolve⟩ |
    ⟨hnode, hrel, hschema⟩ | ⟨hnode, hrel, -, hresolve⟩
  · rw [hresolve]
    rfl
  · rw [hresolve]
    rfl
  · rw [if_neg hnode, if_neg hrel]
    exact h _ hschema
  · rw [if_neg hnode, if_neg hrel, hresolve]
    cases kind <;> rfl

end Catalog

end GraphMapping
