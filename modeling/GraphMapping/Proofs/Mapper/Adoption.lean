import GraphMapping.Proofs.Entity.TypeNames
import GraphMapping.Proofs.Mapper.Loading
import GraphMapping.Proofs.Statement.Matching

/-!
# What a loaded entity is like

A node or relationship that is not stored yet is made after the schema that its type name resolves
to. A node brings its own labels, which replace those of the schema. A relationship does not: its
label is the one that the schema has. This is its type as long as the schema was not given other
labels; otherwise the entity has the label of the schema, and that is what every later statement
matches it by, so that it is not found in the database again.

## Main definitions

* `Store.Denotes`: an end stands for the node with this id.
* `Schema.LabelsBy`: the relationships of a schema have this name for a label.
* `Library.StoresNode`, `Library.StoresRelationship`: what is stored for a node or a relationship
  that was not stored before.

## Main results

* `Catalog.label_resolve_iff`: which relationships have their type for a label.
* `Library.load_reproduces`: when labels and types are those of the database.
* `Library.load_renames_relationship`: a relationship that gets another type.
-/

namespace GraphMapping

/-! ### Labels of relationships -/

/-- The relationships of the schema have this name for a label: it is the least of its labels, or
there are none. -/
def Schema.LabelsBy (schema : Schema) (name : String) : Prop :=
  (∀ label ∈ schema.labels, label = "") ∨
    name ∈ schema.labels ∧ name ≠ "" ∧ ∀ other ∈ schema.labels, other ≠ "" → name ≤ other

theorem Schema.labelsBy_iff {schema : Schema} {name : String} :
    schema.LabelsBy name ↔ (normalizeLabels schema.labels).head?.getD name = name := by
  have hnone : (normalizeLabels schema.labels).head? = none ↔
      ∀ label ∈ schema.labels, label = "" := by
    rw [List.head?_eq_none_iff, List.eq_nil_iff_forall_not_mem]
    refine forall_congr' fun label => ?_
    rw [mem_normalizeLabels, not_and, not_not]
  rw [LabelsBy, ← hnone, ← head?_normalizeLabels]
  cases (normalizeLabels schema.labels).head? <;> simp

/-- A schema that has the name for its only label. -/
theorem Schema.LabelsBy.of_only {schema : Schema} {name : String}
    (honly : ∀ label ∈ schema.labels, label = name) (hname : name ≠ "" → name ∈ schema.labels) :
    schema.LabelsBy name := by
  by_cases hempty : name = ""
  · exact .inl fun label hlabel => (honly label hlabel).trans hempty
  · refine .inr ⟨hname hempty, hempty, fun other hother _ => ?_⟩
    rw [honly other hother]

/-- A name is the label of what it resolves to, unless a schema with other labels is registered. -/
theorem Catalog.label_resolve_iff {catalog : Catalog} (hnamed : catalog.Named) {name : String}
    (hnode : name ≠ genericNodeName) :
    let schema := catalog.resolve name .relationship
    (normalizeLabels schema.labels).head?.getD schema.name = name ↔
      ∀ registered, name ≠ genericRelationshipName →
        catalog.schemas.get? name = some registered → registered.LabelsBy name := by
  intro schema
  have hname : schema.name = name := catalog.name_resolve hnamed name .relationship
  rw [hname, ← Schema.labelsBy_iff]
  rcases catalog.resolve_cases name .relationship with ⟨rfl, -⟩ | ⟨rfl, hresolve⟩ |
    ⟨-, hrel, hschema⟩ | ⟨-, -, hschema, hresolve⟩
  · exact absurd rfl hnode
  · refine iff_of_true (.of_only ?_ ?_) fun _ hrel => absurd rfl hrel
    · rw [show schema = _ from hresolve]
      exact fun label hlabel => List.mem_singleton.mp hlabel
    · rw [show schema = _ from hresolve]
      exact fun _ => List.mem_singleton_self _
  · rw [hschema]
    exact ⟨fun h _ _ heq => Option.some.inj heq ▸ h, fun h => h _ hrel rfl⟩
  · have hlabels : schema.labels = normalizeLabels [name] := by
      rw [show schema = _ from hresolve]
      rfl
    refine iff_of_true (.of_only ?_ ?_) fun _ _ heq => ?_
    · rw [hlabels]
      exact fun label hlabel => List.mem_singleton.mp (mem_normalizeLabels.mp hlabel).1
    · rw [hlabels]
      exact fun hempty => mem_normalizeLabels.mpr ⟨List.mem_singleton_self name, hempty⟩
    · rw [hschema] at heq
      cases heq

/-! ### Storing -/

/-- An end of a relationship stands for the node with this id. -/
def Store.Denotes (store : Store) (x : Endpoint) (id : Int64) : Prop :=
  x = .id id ∨ ∃ key, x = .entity key ∧ store.identityOf? key = some (.node, id)

namespace Library

variable {m : Moment} {lib : Library}

theorem denotes_endpointOf (lib : Library) (id : Int64) :
    lib.store.Denotes (lib.endpointOf id) id := by
  rw [endpointOf]
  cases hfound : lib.store.findById? id .node with
  | none => exact .inl rfl
  | some key => exact .inr ⟨key, rfl, Store.identityOf?_of_findById? hfound⟩

/-- The entity is stored for the node. It has its id, and its labels as a set unless these spell the
generic name of relationships. -/
structure StoresNode (lib : Library) (m : Moment) (raw : RawNode) (e : Entity) : Prop where
  load : lib.load m (.node raw) = .ok (lib.storing e)
  id : e.id = some raw.id
  isNode_iff : e.isNode = true ↔ nodeTypeName raw.labels ≠ genericRelationshipName
  sorted : e.isNode = true → e.labels.Pairwise (· < ·)
  mem_labels : e.isNode = true → ∀ label, label ∈ e.labels ↔ label ∈ raw.labels ∧ label ≠ ""

/-- The entity is stored for the relationship. It has its id, its ends and one label, which is its
type unless a schema with other labels is registered for the type. -/
structure StoresRelationship (lib : Library) (m : Moment) (raw : RawRelationship) (e : Entity) :
    Prop where
  load : lib.load m (.relationship raw) = .ok (lib.storing e)
  id : e.id = some raw.id
  ends : ∃ start finish, e.shape = .relationship (some start) (some finish) ∧
    lib.store.Denotes start raw.start ∧ lib.store.Denotes finish raw.finish
  label : ∃ label, e.labels = [label] ∧
    (label = raw.type ↔ ∀ schema, raw.type ≠ genericRelationshipName →
      lib.catalog.schemas.get? raw.type = some schema → schema.LabelsBy raw.type)
  /-- Whenever it is updated or deleted later, it is matched by the label that it has. -/
  matched : ∀ (store : Store) key e', store.get? key = some e' → e'.labels = e.labels →
    e'.isNode = false → e'.id.isSome = true → store.MatchesAs key e.labels

/-- **What loading reproduces.** Store a node or a relationship that is not stored yet, when its type
name is not registered for the other kind. A node becomes a node with its id and its labels as a set,
unless these spell the generic name of relationships. A relationship becomes one with its id, its
ends and one label, unless its type is the generic name of nodes. Its label is its type exactly when
no schema with other labels is registered for the type; either way, whenever it is updated or
deleted later it is matched by the label that it has. -/
theorem load_reproduces (hnamed : lib.catalog.Named) (m : Moment) :
    (∀ raw : RawNode, lib.store.findById? raw.id .node = none →
      (∀ schema, lib.catalog.schemas.get? (nodeTypeName raw.labels) = some schema →
        schema.kind = .node) →
      ∃ e, lib.StoresNode m raw e) ∧
    ∀ raw : RawRelationship, lib.store.findById? raw.id .relationship = none →
      (∀ schema, lib.catalog.schemas.get? raw.type = some schema → schema.kind = .relationship) →
      (raw.type = genericNodeName → lib.load m (.relationship raw) =
        .error (.argument (.nodeWithEndpoints genericNodeName))) ∧
      (raw.type ≠ genericNodeName → ∃ e, lib.StoresRelationship m raw e) := by
  refine ⟨fun raw hnew hkind => ?_, fun raw hnew hkind => ⟨fun htype => ?_, fun htype => ?_⟩⟩
  · obtain ⟨e, hmakes, hload⟩ := exists_load_node hnew m
    have hresolved := Catalog.kind_resolve hkind
    by_cases hrel : nodeTypeName raw.labels = genericRelationshipName
    · rw [hrel, if_neg (by decide), if_pos rfl, ← hrel] at hresolved
      have hnot : ¬ (e.load raw.properties.toList).isNode = true := by
        rw [Entity.isNode, Entity.load, (hmakes.relationship hresolved).1]
        exact Bool.false_ne_true
      exact ⟨_, hload, hmakes.id, iff_of_false hnot fun hne => hne hrel,
        fun hnode => absurd hnode hnot, fun hnode => absurd hnode hnot⟩
    · rw [if_neg hrel, ite_self] at hresolved
      obtain ⟨-, hshape, hlabels⟩ := hmakes.node hresolved
      have hnode : (e.load raw.properties.toList).isNode = true := by
        rw [Entity.isNode, Entity.load, hshape]
      refine ⟨_, hload, hmakes.id, iff_of_true hnode hrel, fun _ => ?_, fun _ label => ?_⟩
      · rw [Entity.load, hlabels]
        exact normalizeLabels_sorted _
      · rw [Entity.load, hlabels]
        exact mem_normalizeLabels
  · have hresolved := Catalog.kind_resolve hkind
    rw [if_pos htype] at hresolved
    rw [(load_relationship hnew m).1 hresolved, lib.catalog.name_resolve hnamed, htype]
  · have hresolved : (lib.catalog.resolve raw.type .relationship).kind = .relationship := by
      rw [Catalog.kind_resolve hkind, if_neg htype, ite_self]
    obtain ⟨e, hmakes, hload⟩ := (load_relationship hnew m).2 hresolved
    obtain ⟨hshape, hlabels⟩ := hmakes.relationship hresolved
    refine ⟨_, hload, hmakes.id,
      ⟨_, _, hshape, lib.denotes_endpointOf _, lib.denotes_endpointOf _⟩,
      ⟨_, hlabels, lib.catalog.label_resolve_iff hnamed htype⟩,
      fun store key e' he' hsame hrel hid => ?_⟩
    obtain ⟨id, hid⟩ := Option.isSome_iff_exists.mp hid
    exact hsame ▸ Store.matchesAs he' hrel hid

/-- A library without entities, in which one schema is registered. -/
def ofSchema (schema : Schema) : Library :=
  ⟨(Catalog.empty true).register schema, .empty, ⟨[]⟩⟩

theorem ofSchema_named (schema : Schema) : (ofSchema schema).catalog.Named :=
  (Catalog.Named.empty true).register schema

/-- A node with repeated labels, and a relationship of a registered type. -/
theorem load_reproduces_knows :
    let lib := ofSchema (.relationship "Knows")
    (∃ e, lib.StoresNode .epoch ⟨5, ["User", "Admin", "User"], .empty⟩ e ∧ e.isNode = true) ∧
      ∃ e, lib.StoresRelationship .epoch ⟨9, "Knows", .empty, 5, 6⟩ e ∧ e.labels = ["Knows"] := by
  intro lib
  obtain ⟨hnodes, hrelationships⟩ := load_reproduces (ofSchema_named (.relationship "Knows")) .epoch
  constructor
  · have hname : nodeTypeName ["User", "Admin", "User"] = "Admin_User_User" := by
      have hperm : ["User", "Admin", "User"].Perm ["Admin", "User", "User"] := by decide
      rw [nodeTypeName_perm hperm, nodeTypeName_of_sorted (by decide) (by decide)]
      rfl
    have hunknown : ∀ schema, lib.catalog.schemas.get? (nodeTypeName ["User", "Admin", "User"]) =
        some schema → schema.kind = .node := by
      rw [hname]
      exact nofun
    obtain ⟨e, hstores⟩ := hnodes ⟨5, ["User", "Admin", "User"], .empty⟩ rfl hunknown
    exact ⟨e, hstores, hstores.isNode_iff.mpr (hname ▸ by decide)⟩
  · have hschema : ∀ schema, lib.catalog.schemas.get? "Knows" = some schema →
        schema = .relationship "Knows" := fun schema h => (Option.some.inj h).symm
    obtain ⟨e, hstores⟩ :=
      (hrelationships ⟨9, "Knows", .empty, 5, 6⟩ rfl fun schema h => hschema schema h ▸ rfl).2
        (by decide)
    obtain ⟨label, hlabels, hlabel⟩ := hstores.label
    obtain rfl := hlabel.mpr fun schema _ h => hschema schema h ▸ .of_only (by decide) (by decide)
    exact ⟨e, hstores, hlabels⟩

/-- A relationship of a registered type with another label: it is not matched by its type. -/
theorem load_renames_relationship :
    let schema := (Schema.relationship "Knows").withLabels ["Likes"]
    let lib := ofSchema schema
    schema.kind = .relationship ∧ lib.catalog.Named ∧
      lib.store.findById? 9 .relationship = none ∧
      ∃ e, lib.load .epoch (.relationship ⟨9, "Knows", .empty, 1, 2⟩) = .ok (lib.storing e) ∧
        e.id = some 9 ∧ e.labels = ["Likes"] ∧
        (composeDelete (lib.storing e).2.store .fresh [(lib.storing e).1] false).outcome.toOption.map
            (Option.map Statement.text) =
          some (some "MATCH ()-[r0:Likes]-() WHERE id(r0) = $r0_id_0 DELETE r0") :=
  ⟨rfl, ofSchema_named _, rfl, _, rfl, rfl, by decide +kernel, by decide +kernel⟩

end Library

end GraphMapping
