import GraphMapping.Proofs.Mapper.Readings

/-!
# The store as an identity map

A node or relationship that is loaded again is to be found under its kind and its id, so that there
is one stored entity for each. The stored entity is looked up by its own kind, but the kind of a new
one is that of the schema which its type name resolves to. For a relationship the two agree, since a
node type refuses its ends. For a node they disagree when its labels spell the name of a
relationship type: it is stored as a relationship with the id of a node. So it is not found when it
is loaded again, and is stored once more each time.

Everything else fits the store: it is stored already, or becomes an entity of its own kind. It is
found again, whatever is loaded in between, because the first entity of a kind and an id stays the
first one.

## Main definitions

* `Store.Unique`: no two entities have the same kind and id.
* `Library.Fits`: a value that is stored already or becomes an entity of its own kind.
* `Mapper.IdentityMap`: which entities are found again.

## Main results

* `Catalog.not_suits_node_iff`: the labels that a node is stored as a relationship for.
* `Mapper.identityMap_of_unique`: identities stay unique, and what fits is found again.
* `Mapper.readAll_duplicates_node`: a node that does not fit.
-/

namespace GraphMapping

variable {σ : Type}

/-- A node is stored as a relationship exactly when its labels spell the generic name of
relationships or the name of a type that is registered for relationships. -/
theorem Catalog.not_suits_node_iff {catalog : Catalog} {raw : RawNode} :
    ¬ catalog.Suits (.node raw) ↔
      Library.nodeTypeName raw.labels = genericRelationshipName ∨
        (Library.nodeTypeName raw.labels ≠ genericNodeName ∧ ∃ schema,
          catalog.schemas.get? (Library.nodeTypeName raw.labels) = some schema ∧
            schema.kind = .relationship) := by
  have hnames : genericRelationshipName ≠ genericNodeName := by decide
  have hsuits : catalog.Suits (.node raw) ↔
      (catalog.resolve (Library.nodeTypeName raw.labels) .node).kind = .node := Iff.rfl
  rw [hsuits, resolve, Catalog.get?]
  generalize Library.nodeTypeName raw.labels = name
  by_cases hnode : name = genericNodeName
  · simp [hnode, hnames.symm, generic, Schema.withUndefined, Schema.node]
  by_cases hrelationship : name = genericRelationshipName
  · simp [hrelationship, hnames, generic, Schema.withUndefined, Schema.relationship]
  rw [if_neg hnode, if_neg hrelationship]
  cases hschema : catalog.schemas.get? name with
  | none => simp [hrelationship, generic, Schema.withUndefined, Schema.withLabels, Schema.node]
  | some schema => cases hkind : schema.kind <;> simp [hnode, hrelationship, hkind]

/-! ### Looking up -/

namespace Store

variable {store : Store} {key : EntityKey} {id : Int64} {kind : EntityKind} {e : Entity}
  {identity : EntityKind × Int64}

/-- No two entities have the same kind and id. -/
def Unique (store : Store) : Prop :=
  ∀ key key' identity, store.identityOf? key = some identity →
    store.identityOf? key' = some identity → key = key'

theorem identityOf?_eq_some_iff :
    store.identityOf? key = some (kind, id) ↔
      ∃ e, store.get? key = some e ∧ e.id = some id ∧ e.kind = kind := by
  rw [identityOf?]
  cases store.get? key with
  | none => simp
  | some e => cases hid : e.id <;> simp [and_comm]

/-- What is found is the first entity with the identity. The store is searched by position, so it
matters which of several is first, and with unique identities it does not. -/
theorem findById?_eq_some_iff :
    store.findById? id kind = some key ↔ store.identityOf? key = some (kind, id) ∧
      ∀ other, other.index < key.index → store.identityOf? other ≠ some (kind, id) := by
  have hread : ∀ other, store.identityOf? other = some (kind, id) ↔
      ∃ h : other.index < store.entities.length,
        store.entities[other.index].id = some id ∧ store.entities[other.index].kind = kind := by
    intro other
    simp only [identityOf?_eq_some_iff, get?, List.getElem?_eq_some_iff]
    constructor
    · rintro ⟨e, ⟨hlt, rfl⟩, hsame⟩
      exact ⟨hlt, hsame⟩
    · rintro ⟨hlt, hsame⟩
      exact ⟨_, ⟨hlt, rfl⟩, hsame⟩
  simp only [hread, findById?, Option.map_eq_some_iff, List.findIdx?_eq_some_iff_getElem,
    Bool.and_eq_true, decide_eq_true_eq, ne_eq, not_exists]
  constructor
  · rintro ⟨i, ⟨hlt, hsame, hfirst⟩, rfl⟩
    exact ⟨⟨hlt, hsame⟩, fun other hother _ => hfirst other.index hother⟩
  · rintro ⟨⟨hlt, hsame⟩, hfirst⟩
    exact ⟨key.index, ⟨hlt, hsame, fun j hj => hfirst ⟨j⟩ hj (hj.trans hlt)⟩, rfl⟩

theorem findById?_eq_none_iff :
    store.findById? id kind = none ↔ ∀ key, store.identityOf? key ≠ some (kind, id) := by
  simp only [findById?, Option.map_eq_none_iff, List.findIdx?_eq_none_iff, Bool.and_eq_false_iff,
    decide_eq_false_iff_not, ne_eq, identityOf?_eq_some_iff, not_exists, not_and]
  constructor
  · intro h key e he hid hkind
    exact (h e (List.mem_of_getElem? he)).elim (· hid) (· hkind)
  · intro h e he
    obtain ⟨i, hi⟩ := List.mem_iff_getElem?.mp he
    by_cases hid : e.id = some id
    · exact .inr (h ⟨i⟩ e hi hid)
    · exact .inl hid

/-- The key of a new entity is after all others. -/
theorem get?_fst_insert (store : Store) (e : Entity) : store.get? (store.insert e).1 = none :=
  List.getElem?_eq_none (Nat.le_refl _)

/-- An identity in a store with a new entity is that of an old one or of the new one. -/
theorem identityOf?_insert_cases (h : (store.insert e).2.identityOf? key = some identity) :
    store.identityOf? key = some identity ∨
      key = (store.insert e).1 ∧ e.id.map (e.kind, ·) = some identity := by
  obtain ⟨e', he', hidentity⟩ := Option.bind_eq_some_iff.mp h
  rw [get?, insert, List.getElem?_append] at he'
  split at he'
  · exact .inl (Option.bind_eq_some_iff.mpr ⟨e', he', hidentity⟩)
  · rename_i hge
    have hlt := (List.getElem?_eq_some_iff.mp he').1
    obtain rfl := List.mem_singleton.mp (List.mem_of_getElem? he')
    have hindex : key.index = store.entities.length := by
      rw [List.length_singleton] at hlt
      omega
    exact .inr ⟨congrArg EntityKey.mk hindex, hidentity⟩

theorem Unique.insert (h : store.Unique)
    (hnew : ∀ identity, e.id.map (e.kind, ·) = some identity →
      ∀ key, store.identityOf? key ≠ some identity) : (store.insert e).2.Unique := by
  intro key key' identity hkey hkey'
  rcases identityOf?_insert_cases hkey with hold | ⟨rfl, hidentity⟩ <;>
    rcases identityOf?_insert_cases hkey' with hold' | ⟨rfl, hidentity'⟩
  · exact h key key' identity hold hold'
  · exact absurd hold (hnew identity hidentity' key)
  · exact absurd hold' (hnew identity hidentity key')
  · rfl

end Store

/-! ### Loading -/

namespace Library

variable {m : Moment} {lib lib' : Library} {key : EntityKey} {id : Int64} {kind : EntityKind}
  {value : GraphValue}

theorem Leaves.identityOf? (h : lib.Leaves m lib') {e : Entity} (he : lib.store.get? key = some e) :
    lib'.store.identityOf? key = lib.store.identityOf? key := by
  obtain ⟨e', he', hreloads, -⟩ := h.stored key e he
  rw [Store.identityOf?, Store.identityOf?, he, he', Option.bind_some, Option.bind_some,
    hreloads.id, hreloads.kind]

/-- What is found under an identity stays what is found. -/
theorem Leaves.findById? (h : lib.Leaves m lib') (hfound : lib.store.findById? id kind = some key) :
    lib'.store.findById? id kind = some key := by
  rw [Store.findById?_eq_some_iff] at hfound ⊢
  obtain ⟨hidentity, hfirst⟩ := hfound
  obtain ⟨e, he, -⟩ := Store.identityOf?_eq_some_iff.mp hidentity
  refine ⟨(h.identityOf? he).trans hidentity, fun other hother => ?_⟩
  have hlt : other.index < lib.store.entities.length :=
    hother.trans (List.getElem?_eq_some_iff.mp he).1
  rw [h.identityOf? (List.getElem?_eq_getElem hlt)]
  exact hfirst other hother

/-- The value is stored under its identity already, or its type is not registered for the other
kind. -/
def Fits (lib : Library) (value : GraphValue) : Prop :=
  lib.catalog.Suits value ∨
    ∃ identity key, value.identity? = some identity ∧ lib.store.identityOf? key = some identity

theorem Fits.suits_of_findById? (h : lib.Fits value)
    (hidentity : value.identity? = some (kind, id))
    (hnone : lib.store.findById? id kind = none) : lib.catalog.Suits value := by
  rcases h with hsuits | ⟨identity, key, hsame, hkey⟩
  · exact hsuits
  · obtain rfl := Option.some.inj (hidentity.symm.trans hsame)
    exact absurd hkey (Store.findById?_eq_none_iff.mp hnone key)

theorem Leaves.fits (h : lib.Leaves m lib') (hfits : lib.Fits value) : lib'.Fits value := by
  rcases hfits with hsuits | ⟨⟨kind, id⟩, key, hidentity, hkey⟩
  · exact .inl (h.catalog ▸ hsuits)
  · obtain ⟨e, he, -⟩ := Store.identityOf?_eq_some_iff.mp hkey
    exact .inr ⟨(kind, id), key, hidentity, (h.identityOf? he).trans hkey⟩

/-- What fits is found from then on when it has been loaded. -/
theorem findById?_of_load (h : lib.load m value = .ok (key, lib'))
    (hidentity : value.identity? = some (kind, id)) (hfits : lib.Fits value) :
    lib'.store.findById? id kind = some key := by
  obtain ⟨kind', id', hidentity', hcases⟩ := load_cases h
  obtain ⟨rfl, rfl⟩ := Prod.mk.inj (Option.some.inj (hidentity.symm.trans hidentity'))
  rcases hcases with ⟨hfound, -⟩ | ⟨hnone, -, e, hid, -, hsuits, rfl, rfl⟩
  · exact (Leaves.load h).findById? hfound
  · have hsame : e.kind = kind := hsuits.mpr (hfits.suits_of_findById? hidentity hnone)
    rw [Store.findById?_eq_some_iff, Store.identityOf?_eq_some_iff]
    refine ⟨⟨e, Store.get?_insert_self _ e, hid, hsame⟩, fun other hother hnew => ?_⟩
    rcases Store.identityOf?_insert_cases hnew with hold | ⟨rfl, -⟩
    · exact Store.findById?_eq_none_iff.mp hnone other hold
    · exact absurd hother (Nat.lt_irrefl _)

/-- Loading a value keeps identities unique unless it is a node that does not fit. -/
theorem unique_load (hunique : lib.store.Unique) (h : lib.load m value = .ok (key, lib'))
    (hnode : value.isNode = true → lib.Fits value) : lib'.store.Unique := by
  obtain ⟨kind, id, hvalue, ⟨-, properties, rfl⟩ | ⟨hnone, hcases, e, hid, -, hsuits, -, rfl⟩⟩ :=
    load_cases h
  · intro key key' identity hkey hkey'
    rw [identityOf?_refresh] at hkey hkey'
    exact hunique key key' identity hkey hkey'
  · have hsame : e.kind = kind := hsuits.mpr <| hcases.elim (fun hsuit => hsuit) fun hisNode =>
      (hnode hisNode).suits_of_findById? hvalue hnone
    refine hunique.insert fun identity hidentity => ?_
    rw [hid, hsame] at hidentity
    obtain rfl := Option.some.inj hidentity
    exact Store.findById?_eq_none_iff.mp hnone

theorem unique_loadAll (hunique : lib.store.Unique) (keys : List EntityKey)
    {values : List GraphValue}
    (hnodes : ∀ value ∈ values, value.isNode = true → lib.Fits value) :
    (lib.loadAll m keys values).2.store.Unique := by
  induction values generalizing lib keys with
  | nil => exact hunique
  | cons value rest ih =>
    obtain ⟨hvalue, hrest⟩ := List.forall_mem_cons.mp hnodes
    rw [loadAll]
    cases hload : lib.load m value with
    | error err => exact hunique
    | ok loaded =>
      exact ih (unique_load hunique hload hvalue) _ fun later hlater hnode =>
        (Leaves.load hload).fits (hrest later hlater hnode)

theorem findById?_eq_none_of_not_fits (h : ¬ lib.Fits value)
    (hidentity : value.identity? = some (kind, id)) : lib.store.findById? id kind = none :=
  Store.findById?_eq_none_iff.mpr fun key hkey => h (.inr ⟨(kind, id), key, hidentity, hkey⟩)

/-- A node that does not fit is stored as a relationship. It is looked up among the nodes, so the
next time it is not found, and stored again. -/
theorem load_node_of_not_fits {raw : RawNode} (h : ¬ lib.Fits (.node raw)) :
    ∃ e, e.id = some raw.id ∧ e.kind = .relationship ∧ lib.load m (.node raw) =
      .ok ((lib.store.insert e).1, { lib with store := (lib.store.insert e).2 }) := by
  have hnone : lib.store.findById? raw.id .node = none := findById?_eq_none_of_not_fits h rfl
  have hkind : (lib.catalog.resolve (nodeTypeName raw.labels) .node).kind = .relationship := by
    cases hschema : (lib.catalog.resolve (nodeTypeName raw.labels) .node).kind with
    | node => exact absurd (.inl hschema) h
    | relationship => rfl
  obtain ⟨e, hmakes, hload⟩ := exists_load_node hnone m
  exact ⟨e.load raw.properties.toList, hmakes.id, hmakes.kind.trans hkind, hload⟩

theorem load_relationship_of_not_fits {raw : RawRelationship} (h : ¬ lib.Fits (.relationship raw)) :
    lib.load m (.relationship raw) = .error (.argument (.nodeWithEndpoints
      (lib.catalog.resolve raw.type .relationship).name)) := by
  have hnone : lib.store.findById? raw.id .relationship = none :=
    findById?_eq_none_of_not_fits h rfl
  have hkind : (lib.catalog.resolve raw.type .relationship).kind = .node := by
    cases hschema : (lib.catalog.resolve raw.type .relationship).kind with
    | node => rfl
    | relationship => exact absurd (.inl hschema) h
  exact (load_relationship hnone m).1 hkind

end Library

namespace Mapper

variable {mapper : Mapper σ}

/-- What is found under an identity stays what is found, whatever is read. -/
theorem findById?_readAll {key : EntityKey} {id : Int64} {kind : EntityKind}
    (h : mapper.store.findById? id kind = some key) (readings : List (Moment × Reading)) :
    (mapper.readAll readings).store.findById? id kind = some key := by
  induction readings generalizing mapper with
  | nil => exact h
  | cons reading rest ih => exact ih ((mapper.leaves_read reading.1 reading.2).findById? h)

/-- All nodes that the answers offer fit. -/
def NodesFit (mapper : Mapper σ) : Prop :=
  ∀ value, mapper.connection.Offers value → value.isNode = true → mapper.library.Fits value

theorem NodesFit.read (h : mapper.NodesFit) (m : Moment) (reading : Reading) :
    (mapper.read m reading).NodesFit := by
  intro value hoffers hnode
  have hleaves := mapper.leaves_read m reading
  obtain ⟨connection, values, hanswers, -, hread⟩ := mapper.fetches_read m reading
  rw [hread] at hoffers
  exact hleaves.fits (h value (hoffers.of_suffix hanswers) hnode)

theorem unique_read (hunique : mapper.store.Unique) (hnodes : mapper.NodesFit) (m : Moment)
    (reading : Reading) : (mapper.read m reading).store.Unique := by
  obtain ⟨connection, values, -, hoffered, hread⟩ := mapper.fetches_read m reading
  rw [hread]
  exact Library.unique_loadAll hunique [] fun value hvalue => hnodes value (hoffered value hvalue)

/-- Readings keep identities unique when all nodes fit. Relationships need no condition: one that
does not fit is refused, where a node is stored as something else. -/
theorem unique_readAll (hunique : mapper.store.Unique) (hnodes : mapper.NodesFit)
    (readings : List (Moment × Reading)) : (mapper.readAll readings).store.Unique := by
  induction readings generalizing mapper with
  | nil => exact hunique
  | cons reading rest ih =>
    exact ih (unique_read hunique hnodes reading.1 reading.2) (hnodes.read reading.1 reading.2)

/-! ### Loading twice -/

theorem loadAll_singleton {m : Moment} {value : GraphValue} {key : EntityKey} {lib : Library}
    (h : mapper.library.load m value = .ok (key, lib)) :
    mapper.loadAll m [value] = (.ok [key], { mapper with store := lib.store }) := by
  rw [loadAll, Library.loadAll, h]
  rfl

theorem loadAll_of_findById? {value : GraphValue} {kind : EntityKind} {id : Int64}
    {key : EntityKey} (hidentity : value.identity? = some (kind, id))
    (hfound : mapper.store.findById? id kind = some key) (m : Moment) :
    (mapper.loadAll m [value]).1 = .ok [key] := by
  obtain ⟨properties, hload⟩ : ∃ properties, mapper.library.load m value =
      .ok (key, mapper.library.refresh m key properties) :=
    Library.exists_load_of_findById? hidentity hfound
  rw [loadAll_singleton hload]

/-- What fits is loaded, and found from then on. -/
theorem exists_loadAll_of_fits {value : GraphValue} {kind : EntityKind} {id : Int64}
    (hidentity : value.identity? = some (kind, id)) (hfits : mapper.library.Fits value)
    (m : Moment) :
    ∃ key mapper₁, mapper.loadAll m [value] = (.ok [key], mapper₁) ∧
      mapper₁.store.findById? id kind = some key := by
  obtain ⟨key, lib, hload⟩ : ∃ key lib, mapper.library.load m value = .ok (key, lib) := by
    cases hfound : mapper.library.store.findById? id kind with
    | some key =>
      obtain ⟨properties, hload⟩ := Library.exists_load_of_findById? (m := m) hidentity hfound
      exact ⟨key, _, hload⟩
    | none =>
      have hsuits := hfits.suits_of_findById? hidentity hfound
      obtain ⟨key, lib, hload, -⟩ := Library.exists_load (m := m) hidentity hsuits
      exact ⟨key, lib, hload⟩
  exact ⟨key, _, loadAll_singleton hload, Library.findById?_of_load hload hidentity hfits⟩

/-- A node that does not fit is stored as a relationship, and does not fit then either. -/
theorem exists_loadAll_of_not_fits {raw : RawNode} (h : ¬ mapper.library.Fits (.node raw))
    (m : Moment) :
    ∃ e mapper₁, e.id = some raw.id ∧ e.kind = .relationship ∧
      mapper.loadAll m [.node raw] = (.ok [(mapper.store.insert e).1], mapper₁) ∧
      mapper₁.store = (mapper.store.insert e).2 ∧ ¬ mapper₁.library.Fits (.node raw) := by
  obtain ⟨e, hid, hkind, hload⟩ : ∃ e, e.id = some raw.id ∧ e.kind = .relationship ∧
      mapper.library.load m (.node raw) = .ok ((mapper.store.insert e).1,
        { mapper.library with store := (mapper.store.insert e).2 }) :=
    Library.load_node_of_not_fits h
  refine ⟨e, _, hid, hkind, loadAll_singleton hload, rfl, ?_⟩
  rintro (hsuits | ⟨identity, key, hidentity, hkey⟩)
  · exact h (.inl hsuits)
  obtain rfl := Option.some.inj hidentity
  rcases Store.identityOf?_insert_cases hkey with hold | ⟨-, hnew⟩
  · exact h (.inr ⟨_, key, rfl, hold⟩)
  · simp [hid, hkind] at hnew

/-- Which entities are found again: all that fit, and of the others, relationships are refused and
nodes are stored anew. -/
structure IdentityMap (mapper : Mapper σ) : Prop where
  /-- Identities stay unique as long as all nodes fit. -/
  unique : mapper.NodesFit → ∀ readings, (mapper.readAll readings).store.Unique
  /-- What fits is loaded, and whatever is read afterwards, it is loaded under the same key
  again. -/
  again : ∀ m value identity, value.identity? = some identity → mapper.library.Fits value →
    ∃ key mapper₁, mapper.loadAll m [value] = (.ok [key], mapper₁) ∧
      ∀ readings m' value', value'.identity? = some identity →
        ((mapper₁.readAll readings).loadAll m' [value']).1 = .ok [key]
  /-- A relationship that does not fit is refused, and changes nothing. -/
  refused : ∀ m raw, ¬ mapper.library.Fits (.relationship raw) →
    mapper.loadAll m [.relationship raw] =
      (.error (.argument (.nodeWithEndpoints
        (mapper.catalog.resolve raw.type .relationship).name)), mapper)
  /-- A node that does not fit is loaded under one key and then under another. -/
  misplaced : ∀ m m' raw, ¬ mapper.library.Fits (.node raw) →
    ∃ key mapper₁ key' mapper₂, mapper.loadAll m [.node raw] = (.ok [key], mapper₁) ∧
      mapper₁.loadAll m' [.node raw] = (.ok [key'], mapper₂) ∧ key ≠ key' ∧
        ¬ mapper₂.store.Unique

/-- **The store is an identity map, misplaced nodes apart.** Let no two stored entities have the
same kind and id, whatever schemas are registered. This stays so over any sequence of readings, as
long as no answer holds a node whose labels spell a relationship type and that is not stored as a
node already. Apart from such nodes, a node or relationship leads to the same key each time it is
loaded, whatever is read in between, or is refused. Such a node is stored as a relationship, twice
if it is loaded twice. -/
theorem identityMap_of_unique (hunique : mapper.store.Unique) : mapper.IdentityMap := by
  constructor
  case unique => exact unique_readAll hunique
  case again =>
    rintro m value ⟨kind, id⟩ hidentity hfits
    obtain ⟨key, mapper₁, hload, hfound⟩ := exists_loadAll_of_fits hidentity hfits m
    refine ⟨key, mapper₁, hload, fun readings m' value' hidentity' => ?_⟩
    exact loadAll_of_findById? hidentity' (findById?_readAll hfound readings) m'
  case refused =>
    intro m raw hfits
    rw [loadAll, Library.loadAll, Library.load_relationship_of_not_fits hfits]
    rfl
  case misplaced =>
    intro m m' raw hfits
    obtain ⟨e, mapper₁, hid, hkind, hload, hstore, hfits₁⟩ := exists_loadAll_of_not_fits hfits m
    obtain ⟨e', mapper₂, hid', hkind', hload', hstore', -⟩ := exists_loadAll_of_not_fits hfits₁ m'
    have hidentity : mapper₁.store.identityOf? (mapper.store.insert e).1 =
        some (.relationship, raw.id) := by
      rw [hstore]
      exact Store.identityOf?_eq_some_iff.mpr ⟨e, Store.get?_insert_self _ e, hid, hkind⟩
    have hidentity' : mapper₂.store.identityOf? (mapper₁.store.insert e').1 =
        some (.relationship, raw.id) := by
      rw [hstore']
      exact Store.identityOf?_eq_some_iff.mpr ⟨e', Store.get?_insert_self _ e', hid', hkind'⟩
    have hkept : mapper₂.store.identityOf? (mapper.store.insert e).1 =
        some (.relationship, raw.id) := by
      rw [hstore']
      exact Store.identityOf?_insert_of_some hidentity e'
    have hne : (mapper.store.insert e).1 ≠ (mapper₁.store.insert e').1 := by
      intro heq
      rw [heq, Store.identityOf?, Store.get?_fst_insert] at hidentity
      cases hidentity
    exact ⟨_, mapper₁, _, mapper₂, hload, hload', hne, fun hunique' =>
      hne (hunique' _ _ _ hkept hidentity')⟩

/-- A mapper without schemas and entities whose connection answers two statements with a node. -/
def meeting (raw : RawNode) : Mapper Unit :=
  let answer : Answer := fun s => .ok ⟨s.returns.map fun name => .ofList [(name, .node raw)]⟩
  new {} { answers := List.replicate 2 answer } ()

theorem eq_of_offers_meeting {raw : RawNode} {value : GraphValue}
    (h : (meeting raw).connection.Offers value) : value = .node raw := by
  obtain ⟨answer, hanswer, s, result, hok, row, hrow, name, hread⟩ := h
  obtain rfl := List.eq_of_mem_replicate hanswer
  obtain rfl := Except.ok.inj hok
  obtain ⟨column, -, rfl⟩ := List.mem_map.mp hrow
  have hentry := Dict.get?_eq_some_iff.mp hread
  have hentries : (Dict.ofList [(column, GraphValue.node raw)]).toList =
      [(column, GraphValue.node raw)] := rfl
  rw [hentries, List.mem_singleton] at hentry
  exact (Prod.mk.inj hentry).2

theorem unique_meeting (raw : RawNode) : (meeting raw).store.Unique := by
  intro key key' identity hkey
  have hnone : (meeting raw).store.identityOf? key = none := rfl
  exact absurd (hkey.symm.trans hnone) (Option.some_ne_none identity)

/-- A person is looked up twice by its id, and found again. -/
theorem identityMap_meeting_person :
    let mapper := meeting ⟨5, ["Person"], .empty⟩
    let met := mapper.read .epoch (.getById 5 .node)
    mapper.store.Unique ∧ mapper.NodesFit ∧ mapper.IdentityMap ∧
      (mapper.getById .epoch 5 .node).1.toOption = some (some ⟨0⟩) ∧
      (met.getById .epoch 5 .node).1.toOption = some (some ⟨0⟩) := by
  intro mapper met
  have hunique : mapper.store.Unique := unique_meeting _
  refine ⟨hunique, fun value hoffers _ => ?_, identityMap_of_unique hunique, ?_, ?_⟩
  · rw [eq_of_offers_meeting hoffers]
    exact .inl (by decide +kernel)
  · decide +kernel
  · decide +kernel

/-- A node that is labelled as the generic relationships are: the second time it is looked up, it is
stored a second time, under another key. -/
theorem readAll_duplicates_node :
    let mapper := meeting ⟨5, ["Relationship"], .empty⟩
    let met := mapper.read .epoch (.getById 5 .node)
    mapper.store.Unique ∧ (mapper.getById .epoch 5 .node).1.toOption = some (some ⟨0⟩) ∧
      (met.getById .epoch 5 .node).1.toOption = some (some ⟨1⟩) ∧
      ¬ (mapper.readAll [(.epoch, .getById 5 .node), (.epoch, .getById 5 .node)]).store.Unique := by
  refine ⟨unique_meeting _, by decide +kernel, by decide +kernel, fun hunique => ?_⟩
  have hsame : (⟨0⟩ : EntityKey) = ⟨1⟩ :=
    hunique ⟨0⟩ ⟨1⟩ (.relationship, 5) (by decide +kernel) (by decide +kernel)
  exact nomatch hsame

end Mapper

end GraphMapping
