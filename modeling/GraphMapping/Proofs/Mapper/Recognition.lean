import GraphMapping.Proofs.Entity.Reloading
import GraphMapping.Proofs.Mapper.Adoption

/-!
# Recognising types

A registered type of nodes gives its labels to the database and is to be found again by them. A
loaded node gets the type name that its labels spell in increasing order, whatever the order in which
the answer lists them. The name that the schema is registered under may spell them in another order,
and then the node is not one of its type: it has the name that spells them in order, and is made
after what is registered for that name, or after nothing.

What has its own type is loaded through the declared properties of the schema. The two generic names
are the exception. They always mean the generic schemas, also when another one is registered under
them.

## Main results

* `Library.load_recognises`: which types are recognised, and what their nodes are like.
* `Library.load_mistakes_type`: a node that is not recognised.
-/

namespace GraphMapping

theorem Catalog.resolve_of_registered {catalog : Catalog} {schema : Schema}
    (h : catalog.schemas.get? schema.name = some schema) (kind : EntityKind) :
    catalog.resolve schema.name kind =
      if schema.name = genericNodeName then catalog.generic .node
      else if schema.name = genericRelationshipName then catalog.generic .relationship
      else schema := by
  rcases catalog.resolve_cases schema.name kind with ⟨hname, hresolve⟩ | ⟨hname, hresolve⟩ |
    ⟨hnode, hrel, hschema⟩ | ⟨-, -, hschema, -⟩
  · rw [hresolve, if_pos hname]
  · rw [hresolve, if_pos hname, if_neg (hname ▸ by decide)]
  · rw [if_neg hnode, if_neg hrel]
    exact Option.some.inj (hschema.symm.trans h)
  · exact absurd (h.symm.trans hschema) (Option.some_ne_none schema)

namespace Library

variable {lib : Library} {schema : Schema} {raw : RawNode}

/-- The slots of a loaded entity, declared ones and others. -/
theorem get?_properties_load {new : NewEntity} {e : Entity} (h : schema.Makes new e)
    (hnew : new.properties = []) (properties : Dict Value) :
    (∀ name d, schema.declared? name = some d →
      (e.load properties.toList).properties.properties.get? name =
        some (d.load (properties.get? name))) ∧
    ∀ name, schema.declared? name = none →
      (e.load properties.toList).properties.properties.get? name =
        if schema.allowUndefined then (properties.get? name).bind Property.ofLoaded? else none := by
  have hopen : e.properties.allowUndefined = schema.allowUndefined := by
    rw [h.properties]
    rfl
  have hslot : ∀ name, (e.load properties.toList).properties.properties.get? name =
      Property.reload? schema.allowUndefined ((schema.declared? name).map fun d => d.load none)
        (properties.get? name) := by
    intro name
    rw [Entity.load, Bag.get?_load, hopen, Entity.get?_properties_of_makes h hnew,
      Dict.ofList_toList]
  refine ⟨fun name d hd => ?_, fun name hnone => ?_⟩
  · have hinferred : d.inferred = false := by
      simpa using (Option.filter_eq_some_iff.mp hd).2
    rw [hslot, hd]
    simp [Property.reload?, Property.load, hinferred]
  · rw [hslot, hnone]
    cases properties.get? name <;> simp [Property.reload?]

/-- **Recognising types.** Register a schema with the labels that its name spells, and load a node
with these labels, in any order, that is not stored yet. It has the name of the type exactly
when this spells the labels in increasing order, each once and none of them empty. Then its declared
properties are those of the schema, which read what is loaded for them, and the others are taken on
or left out as the schema says; the generic schemas take its place if the name is generic. -/
theorem load_recognises (hnamed : lib.catalog.Named)
    (hschema : lib.catalog.schemas.get? schema.name = some schema)
    (hlabels : schema.labels = deriveLabels schema.name) (hraw : raw.labels.Perm schema.labels)
    (hnew : lib.store.findById? raw.id .node = none) (m : Moment) :
    ∃ e, lib.load m (.node raw) = .ok (lib.storing e) ∧
      (e.typeName = schema.name ↔ SpellsInOrder schema.name) ∧
      (SpellsInOrder schema.name →
        let used := if schema.name = genericNodeName then lib.catalog.generic .node
          else if schema.name = genericRelationshipName then lib.catalog.generic .relationship
          else schema
        (∀ name d, used.declared? name = some d →
          e.properties.properties.get? name = some (d.load (raw.properties.get? name))) ∧
        (∀ name, used.declared? name = none →
          e.properties.properties.get? name =
            if used.allowUndefined then (raw.properties.get? name).bind Property.ofLoaded?
            else none) ∧
        e.properties.allowUndefined = used.allowUndefined) := by
  obtain ⟨e, hmakes, hload⟩ := exists_load_node hnew m
  have hspelled : nodeTypeName raw.labels = nodeTypeName (deriveLabels schema.name) :=
    nodeTypeName_perm (hlabels ▸ hraw)
  refine ⟨_, hload, ?_, fun horder => ?_⟩
  · have hname : (e.load raw.properties.toList).typeName = nodeTypeName raw.labels :=
      hmakes.typeName.trans (lib.catalog.name_resolve hnamed _ .node)
    rw [hname, hspelled]
    exact nodeTypeName_deriveLabels
  · rw [hspelled, nodeTypeName_deriveLabels.mpr horder, Catalog.resolve_of_registered hschema]
      at hmakes
    obtain ⟨hdeclared, hothers⟩ := get?_properties_load hmakes rfl raw.properties
    refine ⟨hdeclared, hothers, ?_⟩
    rw [Entity.load, Bag.load, hmakes.properties]
    rfl

/-- Nodes of a type with an age. -/
def agedSchema (name : String) : Schema := (Schema.node name).declare "age" (.declared .integer)

/-- A user who is an administrator, listed the other way round, with an age as text. -/
def administrator : RawNode := ⟨5, ["User", "Admin"], .ofList [("age", .string "33")]⟩

/-- A type that spells its labels in order is recognised, and the age is read as a number. -/
theorem load_recognises_administrator :
    let lib := ofSchema (agedSchema "Admin_User")
    ∃ e, lib.load .epoch (.node administrator) = .ok (lib.storing e) ∧
      e.typeName = "Admin_User" ∧ (e.get? .epoch "age").map Value.typeName = some "integer" := by
  intro lib
  have horder : SpellsInOrder "Admin_User" := by decide +kernel
  have hperm : administrator.labels.Perm (agedSchema "Admin_User").labels := by decide +kernel
  obtain ⟨e, hload, hname, hslots⟩ :=
    load_recognises (ofSchema_named (agedSchema "Admin_User")) rfl rfl hperm rfl .epoch
  obtain ⟨hdeclared, -, -⟩ := hslots horder
  have hage := hdeclared "age" (.declared .integer) rfl
  refine ⟨e, hload, hname.mpr horder, ?_⟩
  rw [Entity.get?, Bag.get?, hage]
  decide +kernel

/-- The only registered type has the labels of the node and is not recognised: its name spells them
in another order. So the age stays text. -/
theorem load_mistakes_type :
    let schema := agedSchema "User_Admin"
    let lib := ofSchema schema
    lib.catalog.Named ∧ lib.catalog.schemas.toList.map Prod.fst = ["User_Admin"] ∧
      lib.catalog.schemas.get? "User_Admin" = some schema ∧ schema.kind = .node ∧
      schema.labels = deriveLabels "User_Admin" ∧ administrator.labels.Perm schema.labels ∧
      lib.store.findById? 5 .node = none ∧
      ∃ e, lib.load .epoch (.node administrator) = .ok (lib.storing e) ∧
        e.typeName = "Admin_User" ∧ (e.get? .epoch "age").map Value.typeName = some "string" := by
  intro schema lib
  have hspelled : nodeTypeName administrator.labels = "Admin_User" := by
    have hperm : administrator.labels.Perm ["Admin", "User"] := by decide
    rw [nodeTypeName_perm hperm, nodeTypeName_of_sorted (by decide) (by decide)]
    rfl
  obtain ⟨e, hmakes, hload⟩ :=
    exists_load_node (show lib.store.findById? administrator.id .node = none from rfl) .epoch
  rw [hspelled] at hmakes
  -- nothing is declared for the name that spells the labels in order
  have hage := (get?_properties_load hmakes rfl administrator.properties).2 "age" rfl
  refine ⟨ofSchema_named schema, rfl, rfl, rfl, rfl, by decide +kernel, rfl, _, hload,
    hmakes.typeName, ?_⟩
  rw [Entity.get?, Bag.get?, hage]
  decide +kernel

end Library

end GraphMapping
