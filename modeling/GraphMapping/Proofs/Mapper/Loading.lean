import GraphMapping.Mapper.Loading
import GraphMapping.Proofs.Entity.Schemas

/-!
# What is loaded

A node or relationship that comes back is known by its kind and its id. Loading it finds the stored
entity with this identity, or stores a new one, and nothing that is stored loses its identity. So
when several values are loaded, the keys in the end stand for the identities of the values, for all
of them and for no others.

A value is stored as an entity of its own kind unless its type name is registered for the other
kind. This is the only thing that loading a node or relationship depends on.

## Main definitions

* `GraphValue.identity?`, `Store.identityOf?`: kind and id.
* `Catalog.Suits`: a value is of the kind that its type is registered for.
* `Library.storing`: the library with a new entity.

## Main results

* `Library.exists_load_node`, `Library.load_relationship`: what is stored for a value that was not
  stored before.
* `Library.exists_load`: loading one value.
* `Library.exists_loadAll`: loading several values.
-/

namespace GraphMapping

/-- Kind and id of a node or relationship. -/
def GraphValue.identity? : GraphValue → Option (EntityKind × Int64)
  | .node raw => some (.node, raw.id)
  | .relationship raw => some (.relationship, raw.id)
  | .scalar _ => none

/-- Kind and id of a stored entity that has an id. -/
def Store.identityOf? (store : Store) (key : EntityKey) : Option (EntityKind × Int64) :=
  (store.get? key).bind fun e => e.id.map (e.kind, ·)

/-- The type of the value is not registered for the other kind. -/
def Catalog.Suits (catalog : Catalog) : GraphValue → Prop
  | .node raw => (catalog.resolve (Library.nodeTypeName raw.labels) .node).kind = .node
  | .relationship raw => (catalog.resolve raw.type .relationship).kind = .relationship
  | .scalar _ => True

instance (catalog : Catalog) : DecidablePred catalog.Suits
  | .node _ => inferInstanceAs (Decidable (_ = _))
  | .relationship _ => inferInstanceAs (Decidable (_ = _))
  | .scalar _ => inferInstanceAs (Decidable True)

namespace Store

variable {store : Store} {key : EntityKey} {identity : EntityKind × Int64}

theorem identityOf?_of_findById? {id : Int64} {kind : EntityKind}
    (h : store.findById? id kind = some key) : store.identityOf? key = some (kind, id) := by
  obtain ⟨i, hi, rfl⟩ := Option.map_eq_some_iff.mp h
  obtain ⟨hlt, hfound, -⟩ := List.findIdx?_eq_some_iff_getElem.mp hi
  obtain ⟨hid, hkind⟩ : store.entities[i].id = some id ∧ store.entities[i].kind = kind := by
    simpa using hfound
  rw [identityOf?, get?, List.getElem?_eq_getElem hlt, Option.bind_some, hid, hkind]
  rfl

/-- A change of data leaves the identities as they are. -/
theorem identityOf?_modify_load (store : Store) (changed : EntityKey)
    (pairs : List (String × Value)) (key : EntityKey) :
    (store.modify changed (Entity.load · pairs)).identityOf? key = store.identityOf? key := by
  by_cases hkey : key = changed
  · rw [hkey, identityOf?, get?_modify_self, Option.bind_map]
    rfl
  · rw [identityOf?, get?_modify_of_ne store hkey]
    rfl

theorem get?_insert_of_some {e : Entity} (h : store.get? key = some e) (new : Entity) :
    (store.insert new).2.get? key = some e := by
  have hlt : key.index < store.entities.length := (List.getElem?_eq_some_iff.mp h).1
  rw [get?, insert, List.getElem?_append_left hlt]
  exact h

theorem identityOf?_insert_of_some (h : store.identityOf? key = some identity) (e : Entity) :
    (store.insert e).2.identityOf? key = some identity := by
  obtain ⟨e', he', hidentity⟩ := Option.bind_eq_some_iff.mp h
  rw [identityOf?, get?_insert_of_some he' e]
  exact hidentity

theorem get?_insert_self (store : Store) (e : Entity) :
    (store.insert e).2.get? (store.insert e).1 = some e :=
  List.getElem?_concat_length

end Store

namespace Library

variable {m : Moment} {lib lib' lib'' : Library}

/-- From a library to a later one, no identity is lost. -/
structure Grows (lib lib' : Library) : Prop where
  catalog : lib'.catalog = lib.catalog
  kept : ∀ key identity, lib.store.identityOf? key = some identity →
    lib'.store.identityOf? key = some identity

theorem Grows.refl (lib : Library) : lib.Grows lib := ⟨rfl, fun _ _ h => h⟩

theorem Grows.trans (h : lib.Grows lib') (h' : lib'.Grows lib'') : lib.Grows lib'' :=
  ⟨h'.catalog.trans h.catalog, fun key identity hkey => h'.kept key identity (h.kept key identity hkey)⟩

/-- Refreshing loads data into a stored entity, or changes nothing. The two cases do not say which
entities have unsaved work on them; that is told by `isProtected`. -/
theorem refresh_cases (lib : Library) (m : Moment) (key : EntityKey) (properties : Dict Value) :
    lib.refresh m key properties = lib ∨
      ∃ e, lib.store.get? key = some e ∧ lib.isProtected m key e = false ∧
        lib.refresh m key properties =
          { lib with store := lib.store.modify key (Entity.load · properties.toList) } := by
  rw [refresh]
  cases he : lib.store.get? key with
  | none => exact .inl rfl
  | some e =>
    dsimp only
    split
    · exact .inl rfl
    · rename_i hunprotected
      exact .inr ⟨e, rfl, Bool.eq_false_iff.mpr hunprotected, rfl⟩

theorem identityOf?_refresh (lib : Library) (m : Moment) (refreshed : EntityKey)
    (properties : Dict Value) (key : EntityKey) :
    (lib.refresh m refreshed properties).store.identityOf? key = lib.store.identityOf? key := by
  rcases lib.refresh_cases m refreshed properties with h | ⟨-, -, -, h⟩
  · rw [h]
  · rw [h]
    exact Store.identityOf?_modify_load ..

theorem grows_refresh (lib : Library) (m : Moment) (key : EntityKey) (properties : Dict Value) :
    lib.Grows (lib.refresh m key properties) := by
  refine ⟨?_, fun other identity h => (identityOf?_refresh ..).trans h⟩
  rcases lib.refresh_cases m key properties with h | ⟨-, -, -, h⟩ <;> rw [h]

/-- The key of a new entity, and the library with it. -/
def storing (lib : Library) (e : Entity) : EntityKey × Library :=
  ((lib.store.insert e).1, { lib with store := (lib.store.insert e).2 })

theorem adopt_eq {schema : Schema} {new : NewEntity} {e : Entity} (lib : Library)
    (properties : Dict Value) (h : schema.instantiate new = .ok e) :
    lib.adopt schema new properties = .ok (lib.storing (e.load properties.toList)) := by
  rw [adopt, h]
  rfl

theorem exists_adopt {schema : Schema} {kind : EntityKind} {new : NewEntity} {id : Int64}
    (lib : Library) (properties : Dict Value) (hkind : schema.kind = kind) (hid : new.id = some id)
    (hnew : new.properties = []) (hends : kind = .node → new.start = none ∧ new.finish = none) :
    ∃ key lib', lib.adopt schema new properties = .ok (key, lib') ∧ lib.Grows lib' ∧
      lib'.store.identityOf? key = some (kind, id) := by
  obtain ⟨e, he⟩ := Schema.exists_instantiate hnew fun h => hends (hkind.symm.trans h)
  have hmakes := Schema.makes_of_instantiate he
  refine ⟨_, _, lib.adopt_eq properties he, ⟨rfl, fun key identity h => ?_⟩, ?_⟩
  · exact Store.identityOf?_insert_of_some h _
  · have hloaded : (e.load properties.toList).id = some id := hmakes.id.trans hid
    have hsame : (e.load properties.toList).kind = kind := hmakes.kind.trans hkind
    rw [Store.identityOf?, Store.get?_insert_self, Option.bind_some, hloaded, hsame]
    rfl

theorem exists_load_node {raw : RawNode} (hnew : lib.store.findById? raw.id .node = none)
    (m : Moment) :
    ∃ e, (lib.catalog.resolve (nodeTypeName raw.labels) .node).Makes
        { id := some raw.id, labels := some raw.labels } e ∧
      lib.load m (.node raw) = .ok (lib.storing (e.load raw.properties.toList)) := by
  let new : NewEntity := { id := some raw.id, labels := some raw.labels }
  have hends : (lib.catalog.resolve (nodeTypeName raw.labels) .node).kind = .node →
      new.start = none ∧ new.finish = none := fun _ => ⟨rfl, rfl⟩
  obtain ⟨e, he⟩ := Schema.exists_instantiate rfl hends
  refine ⟨e, Schema.makes_of_instantiate he, ?_⟩
  rw [load, loadNode, hnew]
  exact lib.adopt_eq raw.properties he

/-- A relationship that is not stored yet is stored, unless its type is that of nodes. -/
theorem load_relationship {raw : RawRelationship}
    (hnew : lib.store.findById? raw.id .relationship = none) (m : Moment) :
    let schema := lib.catalog.resolve raw.type .relationship
    (schema.kind = .node →
      lib.load m (.relationship raw) = .error (.argument (.nodeWithEndpoints schema.name))) ∧
    (schema.kind = .relationship → ∃ e, schema.Makes
        { id := some raw.id
          start := some (lib.endpointOf raw.start)
          finish := some (lib.endpointOf raw.finish) } e ∧
      lib.load m (.relationship raw) = .ok (lib.storing (e.load raw.properties.toList))) := by
  intro schema
  let new : NewEntity :=
    { id := some raw.id
      start := some (lib.endpointOf raw.start)
      finish := some (lib.endpointOf raw.finish) }
  have hload : lib.load m (.relationship raw) = lib.adopt schema new raw.properties := by
    rw [load, loadRelationship, hnew]
  rw [hload]
  constructor
  · intro hkind
    have hnothing : schema.refused? [] = none := rfl
    simp [new, adopt, Schema.instantiate, hnothing, hkind, Except.map]
  · intro hkind
    have hends : schema.kind = .node → new.start = none ∧ new.finish = none := fun hnode =>
      EntityKind.noConfusion (hnode.symm.trans hkind)
    obtain ⟨e, he⟩ := Schema.exists_instantiate rfl hends
    exact ⟨e, Schema.makes_of_instantiate he, lib.adopt_eq raw.properties he⟩

/-- A value that is stored under its identity is refreshed there. -/
theorem exists_load_of_findById? {value : GraphValue} {kind : EntityKind} {id : Int64}
    {key : EntityKey} (hidentity : value.identity? = some (kind, id))
    (hfound : lib.store.findById? id kind = some key) :
    ∃ properties, lib.load m value = .ok (key, lib.refresh m key properties) := by
  cases value with
  | scalar v => exact nomatch hidentity
  | node raw =>
    obtain ⟨rfl, rfl⟩ := Prod.mk.inj (Option.some.inj hidentity)
    rw [load, loadNode, hfound]
    exact ⟨_, rfl⟩
  | relationship raw =>
    obtain ⟨rfl, rfl⟩ := Prod.mk.inj (Option.some.inj hidentity)
    rw [load, loadRelationship, hfound]
    exact ⟨_, rfl⟩

/-- Loading a value leads to a key with its identity. The value has to suit the catalog: a node
whose labels name a type of relationships is stored as a relationship, which has another identity.
-/
theorem exists_load {value : GraphValue} {identity : EntityKind × Int64}
    (hidentity : value.identity? = some identity) (hsuits : lib.catalog.Suits value) :
    ∃ key lib', lib.load m value = .ok (key, lib') ∧ lib.Grows lib' ∧
      lib'.store.identityOf? key = some identity := by
  obtain ⟨kind, id⟩ := identity
  cases hfound : lib.store.findById? id kind with
  | some key =>
    obtain ⟨properties, hload⟩ := exists_load_of_findById? (m := m) hidentity hfound
    have hgrows := grows_refresh lib m key properties
    exact ⟨key, _, hload, hgrows, hgrows.kept key _ (Store.identityOf?_of_findById? hfound)⟩
  | none =>
    cases value with
    | scalar v => exact nomatch hidentity
    | node raw =>
      obtain ⟨rfl, rfl⟩ := Prod.mk.inj (Option.some.inj hidentity)
      rw [load, loadNode, hfound]
      have hkind : (lib.catalog.resolve (nodeTypeName raw.labels) .node).kind = .node := hsuits
      exact lib.exists_adopt raw.properties hkind rfl rfl fun _ => ⟨rfl, rfl⟩
    | relationship raw =>
      obtain ⟨rfl, rfl⟩ := Prod.mk.inj (Option.some.inj hidentity)
      rw [load, loadRelationship, hfound]
      have hkind : (lib.catalog.resolve raw.type .relationship).kind = .relationship := hsuits
      exact lib.exists_adopt raw.properties hkind rfl rfl fun hnode => nomatch hnode

theorem mem_listed {keys : List EntityKey} {key : EntityKey} (other : EntityKey) :
    (other ∈ if key ∈ keys then keys else keys ++ [key]) ↔ other ∈ keys ∨ other = key := by
  split
  · rename_i h
    exact ⟨.inl, fun hother => hother.elim id fun heq => heq ▸ h⟩
  · rw [List.mem_append, List.mem_singleton]

theorem nodup_listed {keys : List EntityKey} {key : EntityKey} (hkeys : keys.Nodup) :
    (if key ∈ keys then keys else keys ++ [key]).Nodup := by
  split
  · exact hkeys
  · rename_i h
    refine List.nodup_append.mpr ⟨hkeys, by simp, fun a ha b hb hab => h ?_⟩
    rwa [hab, List.mem_singleton.mp hb] at ha

/-- The keys in the end are those in the beginning and, each once, keys of the identities of the
values. -/
structure Loads (lib : Library) (keys : List EntityKey) (values : List GraphValue)
    (keys' : List EntityKey) (lib' : Library) : Prop where
  grows : lib.Grows lib'
  kept : keys ⊆ keys'
  nodup : keys.Nodup → keys'.Nodup
  all : ∀ value ∈ values, ∃ key ∈ keys', lib'.store.identityOf? key = value.identity?
  only : ∀ key ∈ keys', key ∉ keys →
    ∃ value ∈ values, lib'.store.identityOf? key = value.identity?

/-- Loading nodes and relationships leads to keys with their identities. -/
theorem exists_loadAll {values : List GraphValue} (keys : List EntityKey)
    (hidentity : ∀ value ∈ values, (value.identity?).isSome)
    (hsuits : ∀ value ∈ values, lib.catalog.Suits value) :
    ∃ keys' lib', lib.loadAll m keys values = (.ok keys', lib') ∧
      lib.Loads keys values keys' lib' := by
  induction values generalizing lib keys with
  | nil =>
    exact ⟨keys, lib, rfl, .refl lib, fun _ h => h, id, fun _ h => absurd h List.not_mem_nil,
      fun key h hnot => absurd h hnot⟩
  | cons value rest ih =>
    obtain ⟨hvalue, hrest⟩ := List.forall_mem_cons.mp hidentity
    obtain ⟨hsuitsValue, hsuitsRest⟩ := List.forall_mem_cons.mp hsuits
    obtain ⟨identity, hvalue⟩ := Option.isSome_iff_exists.mp hvalue
    obtain ⟨key, lib₁, hload, hgrows, hkey⟩ := exists_load (m := m) hvalue hsuitsValue
    let keys₁ := if key ∈ keys then keys else keys ++ [key]
    have hmem : ∀ other, other ∈ keys₁ ↔ other ∈ keys ∨ other = key := mem_listed
    obtain ⟨keys', lib', hloadAll, hloads⟩ := ih keys₁ hrest (hgrows.catalog ▸ hsuitsRest)
    have hfinal : lib'.store.identityOf? key = value.identity? :=
      (hloads.grows.kept key identity hkey).trans hvalue.symm
    refine ⟨keys', lib', ?_, hgrows.trans hloads.grows, fun other hother => ?_,
      fun hkeys => hloads.nodup (nodup_listed hkeys), fun value' hvalue' => ?_, fun other hother hnot => ?_⟩
    · rw [loadAll, hload]
      exact hloadAll
    · exact hloads.kept ((hmem other).mpr (.inl hother))
    · rcases List.mem_cons.mp hvalue' with rfl | hvalue'
      · exact ⟨key, hloads.kept ((hmem key).mpr (.inr rfl)), hfinal⟩
      · exact hloads.all value' hvalue'
    · by_cases hlisted : other ∈ keys₁
      · obtain rfl := ((hmem other).mp hlisted).resolve_left hnot
        exact ⟨value, List.mem_cons_self, hfinal⟩
      · obtain ⟨value', hvalue', hsame⟩ := hloads.only other hother hlisted
        exact ⟨value', List.mem_cons_of_mem _ hvalue', hsame⟩

end Library

end GraphMapping
