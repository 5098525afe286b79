import GraphMapping.Entity.Basic

/-!
# Entity stores

A store owns the entities of a mapper. Entities are only ever added, so the key of an entity is its
place in the order of arrival and stays valid.

## Main definitions

* `Store`: the entities, in order of arrival.
* `Store.insert`, `Store.get?`, `Store.modify`: adding, reading and changing an entity.
* `Store.findById?`: the stored node or relationship with a given id.

## Main results

* `Store.get?_modify_self`, `Store.get?_modify_of_ne`: read after a change.
-/

namespace GraphMapping

/-- The entities of a mapper, in order of arrival. -/
structure Store where
  entities : List Entity

namespace Store

/-- A store without entities. -/
def empty : Store := ⟨[]⟩

instance : Inhabited Store := ⟨empty⟩

/-- The number of entities. -/
def size (store : Store) : Nat := store.entities.length

/-- Add an entity; its key is the place it gets. -/
def insert (store : Store) (e : Entity) : EntityKey × Store :=
  (⟨store.size⟩, ⟨store.entities ++ [e]⟩)

/-- The entity of a key. -/
def get? (store : Store) (key : EntityKey) : Option Entity := store.entities[key.index]?

/-- The entity of a key, which has to be one of the store. -/
def find (store : Store) (key : EntityKey) : Except MapperError Entity :=
  match store.get? key with
  | some e => .ok e
  | none => .error (.unknownEntity key)

/-- Change the entity of a key; a key that is not of the store changes nothing. -/
def modify (store : Store) (key : EntityKey) (f : Entity → Entity) : Store :=
  ⟨store.entities.modify key.index f⟩

/-- The keys of the store, in order. -/
def keys (store : Store) : List EntityKey := (List.range store.size).map EntityKey.mk

/-- The first stored entity of a kind with the given id. -/
def findById? (store : Store) (id : Int64) (kind : EntityKind) : Option EntityKey :=
  (store.entities.findIdx? fun e => e.id = some id && e.kind = kind).map EntityKey.mk

/-- No entity has a query variable any more. -/
def releaseVariables (store : Store) : Store := ⟨store.entities.map Entity.releaseVariable⟩

@[simp] theorem get?_modify_self (store : Store) (key : EntityKey) (f : Entity → Entity) :
    (store.modify key f).get? key = (store.get? key).map f := by
  simp [modify, get?]

theorem get?_modify_of_get? {store : Store} {key : EntityKey} {e : Entity}
    (h : store.get? key = some e) (f : Entity → Entity) :
    (store.modify key f).get? key = some (f e) := by
  rw [get?_modify_self, h, Option.map_some]

theorem get?_modify_of_ne (store : Store) {key other : EntityKey} (h : other ≠ key)
    (f : Entity → Entity) : (store.modify key f).get? other = store.get? other := by
  have hne : key.index ≠ other.index := fun heq => h (by cases key; cases other; simp_all)
  simp [modify, get?, hne]

@[simp] theorem size_modify (store : Store) (key : EntityKey) (f : Entity → Entity) :
    (store.modify key f).size = store.size := by
  simp [modify, size]

end Store

end GraphMapping
