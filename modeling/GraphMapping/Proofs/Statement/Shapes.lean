import Mathlib.Data.List.Forall2
import GraphMapping.Proofs.Dict
import GraphMapping.Proofs.Statement.Variables
import GraphMapping.Statement.Save

/-!
# Stores of one shape

Two stores have the same shape when they differ in values only: the values of properties, the ids,
and the ids of ends that are known by nothing else. What can be seen without values is the same:
kinds, types, labels, removed fields, variables, which fields have a value, which entities have an
id, and which stored entities the ends are.

Drafts are composed from two such stores in lock step. Every step reads from both stores what does
not depend on values, so it makes the same choice twice. The one value that a choice depends on is a
bare id: it is matched once, however many ends have it. So bare ids have to be equal in one store
where they are in the other; they correspond one to one.

## Main definitions

* `Entity.SameShape`, `Store.SameShape`: entities and stores that differ in values only.
* `Store.Corresponds`: the same under a correspondence of bare ids.
* `Draft.Alike`: drafts that differ in values only.

## Main results

* `Store.SameShape.corresponds`: bare ids at the same ends correspond one to one.
* `Draft.Alike.save`: writing an entity keeps drafts alike.
-/

namespace GraphMapping

theorem Option.rel_cases {α β : Type} {r : α → β → Prop} {a : Option α} {b : Option β}
    (h : Option.Rel r a b) : a = none ∧ b = none ∨ ∃ x y, a = some x ∧ b = some y ∧ r x y := by
  cases h with
  | none => exact .inl ⟨rfl, rfl⟩
  | some h => exact .inr ⟨_, _, rfl, rfl, h⟩

/-! ### Shapes -/

/-- Entities that differ in values only, read at two moments. -/
structure Entity.SameShape (m m' : Moment) (e e' : Entity) : Prop where
  isNode : e'.isNode = e.isNode
  typeName : e'.typeName = e.typeName
  labels : e'.labels = e.labels
  deleted : e'.deleted = e.deleted
  queryVariable : e'.queryVariable = e.queryVariable
  /-- Both are persisted or none of them is. -/
  persisted : e'.id.isSome = e.id.isSome
  /-- The same fields have a value to write. -/
  fields : (e'.data m' .graph).names = (e.data m .graph).names

/-- What an end of a stored relationship refers to. -/
def Store.endpoint? (store : Store) (key : EntityKey) (role : EndpointRole) : Option Endpoint :=
  (store.get? key).bind (·.endpoint? role)

/-- Stores that differ in values only, read at two moments. -/
structure Store.SameShape (m m' : Moment) (store store' : Store) : Prop where
  size : store'.size = store.size
  entities : ∀ key e e', store.get? key = some e → store'.get? key = some e' →
    e.SameShape m m' e'
  /-- Ends are missing, are stored nodes, or are bare ids at the same places; stored nodes are the
  same. -/
  ends : ∀ key role,
    (store'.endpoint? key role).map Endpoint.key? = (store.endpoint? key role).map Endpoint.key?
  /-- Bare ids are equal in one store where they are in the other. -/
  ids : ∀ key role i i', store.endpoint? key role = some (.id i) →
    store'.endpoint? key role = some (.id i') → ∀ key₂ role₂ j j',
      store.endpoint? key₂ role₂ = some (.id j) → store'.endpoint? key₂ role₂ = some (.id j') →
        (i = j ↔ i' = j')

namespace Entity.SameShape

variable {m m' : Moment} {e e' : Entity}

theorem kind (h : e.SameShape m m' e') : e'.kind = e.kind := by
  rw [Entity.kind, h.isNode, Entity.kind]

theorem bindVariable (h : e.SameShape m m' e') (name : String) :
    (e.bindVariable name).SameShape m m' (e'.bindVariable name) :=
  { h with queryVariable := rfl }

theorem define (h : e.SameShape m m' e') {names names₁ : Names} {name : String}
    (hdefine : names.define e = (name, e.bindVariable name, names₁)) :
    names.define e' = (name, e'.bindVariable name, names₁) := by
  rcases Names.define_cases hdefine with ⟨hbound, rfl⟩ | ⟨hnone, rfl, rfl⟩
  · have hbound' := h.queryVariable.trans hbound
    simp only [Names.define, hbound', bindVariable_of_bound hbound']
  · simp only [Names.define, h.queryVariable, hnone, h.kind]

theorem id_cases (h : e.SameShape m m' e') :
    e.id = none ∧ e'.id = none ∨ ∃ id id', e.id = some id ∧ e'.id = some id' := by
  have hpersisted := h.persisted
  cases hid : e.id with
  | none =>
    rw [hid] at hpersisted
    exact .inl ⟨rfl, by simpa using hpersisted⟩
  | some id =>
    rw [hid, Option.isSome_some, Option.isSome_iff_exists] at hpersisted
    obtain ⟨id', hid'⟩ := hpersisted
    exact .inr ⟨id, id', rfl, hid'⟩

theorem map_fst_data (h : e.SameShape m m' e') :
    (e'.data m' .graph).toList.map Prod.fst = (e.data m .graph).toList.map Prod.fst := h.fields

theorem paramFor (h : e.SameShape m m' e') (names : Names) (field : String) :
    names.paramFor e' field = names.paramFor e field := by
  rw [Names.paramFor, h.queryVariable, h.typeName, Names.paramFor]

end Entity.SameShape

/-! ### Correspondence of bare ids -/

/-- The relation is one to one. -/
def OneToOne (R : Int64 → Int64 → Prop) : Prop :=
  ∀ i j i' j', R i i' → R j j' → (i = j ↔ i' = j')

/-- What two ends refer to: the same stored node, or ids that correspond. -/
inductive Endpoint.Corresponds (R : Int64 → Int64 → Prop) : Endpoint → Endpoint → Prop
  | entity (key : EntityKey) : Corresponds R (.entity key) (.entity key)
  | id {i i' : Int64} (h : R i i') : Corresponds R (.id i) (.id i')

/-- Entities of one shape whose ends correspond. -/
structure Entity.Corresponds (R : Int64 → Int64 → Prop) (m m' : Moment) (e e' : Entity) :
    Prop extends e.SameShape m m' e' where
  ends : ∀ role, Option.Rel (Endpoint.Corresponds R) (e.endpoint? role) (e'.endpoint? role)

/-- Stores of corresponding entities. -/
def Store.Corresponds (R : Int64 → Int64 → Prop) (m m' : Moment) (store store' : Store) : Prop :=
  ∀ key, Option.Rel (Entity.Corresponds R m m') (store.get? key) (store'.get? key)

namespace Store

variable {R : Int64 → Int64 → Prop} {m m' : Moment} {store store' : Store} {key : EntityKey}

/-- The bare ids stand at the same end. -/
def SameEnd (store store' : Store) (i i' : Int64) : Prop :=
  ∃ key role, store.endpoint? key role = some (.id i) ∧ store'.endpoint? key role = some (.id i')

theorem SameShape.oneToOne (h : store.SameShape m m' store') : OneToOne (store.SameEnd store') := by
  rintro i j i' j' ⟨key, role, hi, hi'⟩ ⟨key₂, role₂, hj, hj'⟩
  exact h.ids key role i i' hi hi' key₂ role₂ j j' hj hj'

/-- Bare ids at the same ends correspond. Which ids these are does not matter to a statement, but
which of them are equal does, because each id is matched once. -/
theorem SameShape.corresponds (h : store.SameShape m m' store') :
    store.Corresponds (store.SameEnd store') m m' store' := by
  intro key
  have hlength : store'.entities.length = store.entities.length := h.size
  cases he : store.get? key with
  | none =>
    have hnone : store'.get? key = none := by
      rw [get?, List.getElem?_eq_none_iff] at he ⊢
      omega
    rw [hnone]
    exact .none
  | some e =>
    obtain ⟨e', he'⟩ : ∃ e', store'.get? key = some e' := by
      rw [get?, List.getElem?_eq_some_iff] at he
      obtain ⟨hlt, -⟩ := he
      exact ⟨_, List.getElem?_eq_getElem (hlength.symm ▸ hlt)⟩
    rw [he']
    refine .some ⟨h.entities key e e' he he', fun role => ?_⟩
    have hend : store.endpoint? key role = e.endpoint? role := by rw [endpoint?, he]; rfl
    have hend' : store'.endpoint? key role = e'.endpoint? role := by rw [endpoint?, he']; rfl
    have hkeys := h.ends key role
    rw [hend, hend'] at hkeys
    cases hx : e.endpoint? role with
    | none =>
      rw [hx] at hkeys
      rw [Option.map_eq_none_iff.mp hkeys]
      exact .none
    | some x =>
      rw [hx] at hkeys
      obtain ⟨x', hx', hkey⟩ := Option.map_eq_some_iff.mp hkeys
      rw [hx']
      refine .some ?_
      cases x with
      | entity k =>
        cases x' with
        | entity k' =>
          obtain rfl : k' = k := Option.some.inj hkey
          exact .entity k'
        | id i' => cases hkey
      | id i =>
        cases x' with
        | entity k' => cases hkey
        | id i' => exact .id ⟨key, role, hend.trans hx, hend'.trans hx'⟩

/-- Reading stores that correspond. -/
theorem Corresponds.cases (h : store.Corresponds R m m' store') (key : EntityKey) :
    store.get? key = none ∧ store'.get? key = none ∨
      ∃ e e', store.get? key = some e ∧ store'.get? key = some e' ∧ e.Corresponds R m m' e' :=
  Option.rel_cases (h key)

/-- Stores that correspond have the same shape. -/
theorem Corresponds.sameShape (h : store.Corresponds R m m' store') (hR : OneToOne R) :
    store.SameShape m m' store' := by
  have hends : ∀ key role,
      Option.Rel (Endpoint.Corresponds R) (store.endpoint? key role)
        (store'.endpoint? key role) := by
    intro key role
    rcases h.cases key with ⟨hnone, hnone'⟩ | ⟨e, e', he, he', hentity⟩
    · rw [endpoint?, endpoint?, hnone, hnone']
      exact .none
    · rw [endpoint?, endpoint?, he, he']
      exact hentity.ends role
  have hids : ∀ key role i i', store.endpoint? key role = some (.id i) →
      store'.endpoint? key role = some (.id i') → R i i' := by
    intro key role i i' hi hi'
    have hend := hends key role
    rw [hi, hi'] at hend
    cases hend with
    | some hx => cases hx with
      | id h => exact h
  constructor
  case size =>
    have hlt : ∀ n, n < store.entities.length ↔ n < store'.entities.length := by
      intro n
      rcases h.cases ⟨n⟩ with ⟨hnone, hnone'⟩ | ⟨e, e', he, he', -⟩
      · rw [get?, List.getElem?_eq_none_iff] at hnone hnone'
        exact ⟨fun h => absurd h (Nat.not_lt.mpr hnone), fun h => absurd h (Nat.not_lt.mpr hnone')⟩
      · obtain ⟨hn, -⟩ := List.getElem?_eq_some_iff.mp he
        obtain ⟨hn', -⟩ := List.getElem?_eq_some_iff.mp he'
        exact ⟨fun _ => hn', fun _ => hn⟩
    have hsize := hlt store.entities.length
    have hsize' := hlt store'.entities.length
    rw [size, size]
    omega
  case entities =>
    intro key e e' he he'
    rcases h.cases key with ⟨hnone, -⟩ | ⟨a, a', ha, ha', hentity⟩
    · exact absurd (he.symm.trans hnone) (Option.some_ne_none e)
    · obtain rfl := Option.some.inj (ha.symm.trans he)
      obtain rfl := Option.some.inj (ha'.symm.trans he')
      exact hentity.toSameShape
  case ends =>
    intro key role
    rcases Option.rel_cases (hends key role) with ⟨hnone, hnone'⟩ | ⟨x, x', hx, hx', hend⟩
    · rw [hnone, hnone']
    · rw [hx, hx']
      cases hend <;> rfl
  case ids =>
    intro key role i i' hi hi' key₂ role₂ j j' hj hj'
    exact hR i j i' j' (hids key role i i' hi hi') (hids key₂ role₂ j j' hj hj')

theorem Corresponds.modify (h : store.Corresponds R m m' store') {e e' : Entity}
    (he : e.Corresponds R m m' e') :
    (store.modify key fun _ => e).Corresponds R m m' (store'.modify key fun _ => e') := by
  intro other
  by_cases hother : other = key
  · rw [hother, get?_modify_self, get?_modify_self]
    rcases h.cases key with ⟨hnone, hnone'⟩ | ⟨a, a', ha, ha', -⟩
    · rw [hnone, hnone']
      exact .none
    · rw [ha, ha']
      exact .some he
  · rw [get?_modify_of_ne store hother, get?_modify_of_ne store' hother]
    exact h other

end Store

theorem Entity.Corresponds.bindVariable {R : Int64 → Int64 → Prop} {m m' : Moment} {e e' : Entity}
    (h : e.Corresponds R m m' e') (name : String) :
    (e.bindVariable name).Corresponds R m m' (e'.bindVariable name) :=
  { h.toSameShape.bindVariable name with ends := h.ends }

/-! ### Drafts -/

/-- Drafts that differ in values only. -/
structure Draft.Alike (R : Int64 → Int64 → Prop) (m m' : Moment) (d d' : Draft) : Prop where
  store : d.store.Corresponds R m m' d'.store
  names : d'.names = d.names
  clauses : d'.clauses = { d.clauses with params := d'.clauses.params }
  params : d'.clauses.params.names = d.clauses.params.names
  placed : d'.placed = d.placed
  boundIds : List.Forall₂ (fun a a' => R a.1 a'.1 ∧ a'.2 = a.2) d.boundIds d'.boundIds

/-- The same result, and drafts that differ in values only. -/
structure Draft.Agree {α : Type} (R : Int64 → Int64 → Prop) (m m' : Moment) (x x' : α × Draft) :
    Prop where
  result : x'.1 = x.1
  draft : x.2.Alike R m m' x'.2

theorem Draft.Agree.exists_eq {α : Type} {R : Int64 → Int64 → Prop} {m m' : Moment}
    {x x' : α × Draft} (h : Agree R m m' x x') :
    ∃ a d d', x = (a, d) ∧ x' = (a, d') ∧ d.Alike R m m' d' := by
  obtain ⟨a, d⟩ := x
  obtain ⟨a', d'⟩ := x'
  obtain ⟨hresult, hdraft⟩ := h
  obtain rfl : a' = a := hresult
  exact ⟨a', d, d', rfl, rfl, hdraft⟩

namespace Draft.Alike

variable {R : Int64 → Int64 → Prop} {m m' : Moment} {d d' : Draft} {e e' : Entity}

theorem withNames (h : Alike R m m' d d') (names : Names) :
    Alike R m m' { d with names } { d' with names } :=
  { h with names := rfl }

/-- The same change to both clauses, apart from the parameters. -/
theorem withClauses (h : Alike R m m' d d') {clauses clauses' : Clauses}
    (hclauses : clauses' = { clauses with params := clauses'.params })
    (hparams : clauses'.params.names = clauses.params.names) :
    Alike R m m' { d with clauses } { d' with clauses := clauses' } :=
  { h with clauses := hclauses, params := hparams }

theorem bindParam (h : Alike R m m' d d') (param : String) (value value' : Value) :
    Alike R m m' (d.bindParam param value) (d'.bindParam param value') := by
  refine h.withClauses ?_ (Dict.names_insert_congr h.params param value value')
  rw [h.clauses]

theorem askId (h : Alike R m m' d d') (name param : String) (id id' : Int64) :
    Alike R m m' (d.askId name param id) (d'.askId name param id') := by
  have hbound := h.bindParam param (.integer id) (.integer id')
  refine hbound.withClauses ?_ hbound.params
  rw [hbound.clauses]

theorem addMatch (h : Alike R m m' d d') (p : Pattern) :
    Alike R m m' (d.addMatch p) (d'.addMatch p) := by
  refine h.withClauses ?_ h.params
  rw [h.clauses]

theorem addCreate (h : Alike R m m' d d') (p : Pattern) :
    Alike R m m' (d.addCreate p) (d'.addCreate p) := by
  refine h.withClauses ?_ h.params
  rw [h.clauses]

theorem addReturn (h : Alike R m m' d d') (name : String) :
    Alike R m m' (d.addReturn name) (d'.addReturn name) := by
  refine h.withClauses ?_ h.params
  rw [h.clauses]

theorem assign (h : Alike R m m' d d') (assigned : List Assignment) :
    Alike R m m'
      { d with clauses := { d.clauses with assigned := d.clauses.assigned ++ assigned } }
      { d' with clauses := { d'.clauses with assigned := d'.clauses.assigned ++ assigned } } := by
  refine h.withClauses ?_ h.params
  rw [h.clauses]

theorem place (h : Alike R m m' d d') (name : String) :
    Agree R m m' (d.place name) (d'.place name) := by
  rw [Draft.place, Draft.place, h.placed]
  split
  · exact ⟨rfl, h⟩
  · exact ⟨rfl, { h with placed := rfl }⟩

theorem define (h : Alike R m m' d d') (he : e.Corresponds R m m' e') (key : EntityKey) :
    ∃ name d₁ d₁', d.define key e = (name, e.bindVariable name, d₁) ∧
      d'.define key e' = (name, e'.bindVariable name, d₁') ∧ Alike R m m' d₁ d₁' := by
  obtain ⟨name, names, hdefine⟩ := d.names.exists_define e
  have hdefine' := he.toSameShape.define hdefine
  rw [← h.names] at hdefine'
  refine ⟨name, { d with store := d.store.modify key fun _ => e.bindVariable name, names },
    { d' with store := d'.store.modify key fun _ => e'.bindVariable name, names }, ?_, ?_,
    { h with store := h.store.modify (he.bindVariable name), names := rfl }⟩
  · rw [Draft.define, hdefine]
  · rw [Draft.define, hdefine']

theorem bindFields (h : Alike R m m' d d') (he : e.SameShape m m' e')
    {fields fields' : List (String × Value)}
    (hfields : fields'.map Prod.fst = fields.map Prod.fst) :
    Agree R m m' (d.bindFields e fields) (d'.bindFields e' fields') := by
  induction fields generalizing d d' fields' with
  | nil =>
    obtain rfl := List.map_eq_nil_iff.mp hfields
    exact ⟨rfl, h⟩
  | cons pair rest ih =>
    cases fields' with
    | nil => cases hfields
    | cons pair' rest' =>
      obtain ⟨field, value⟩ := pair
      obtain ⟨field', value'⟩ := pair'
      obtain ⟨hfield, hrest⟩ := List.cons.inj hfields
      obtain rfl : field' = field := hfield
      obtain ⟨param, names, hparam⟩ : ∃ param names,
          d.names.paramFor e field' = (param, names) := ⟨_, _, rfl⟩
      have hparam' : d'.names.paramFor e' field' = (param, names) := by
        rw [he.paramFor, h.names, hparam]
      have hstep := ih ((h.withNames names).bindParam param value value') hrest
      rw [Draft.bindFields, Draft.bindFields]
      simp only [hparam, hparam']
      exact ⟨congrArg (List.cons (field', param)) hstep.result, hstep.draft⟩

theorem update (h : Alike R m m' d d') (he : e.SameShape m m' e') (name : String)
    (id id' : Int64) : Alike R m m' (d.update m name e id) (d'.update m' name e' id') := by
  obtain ⟨fields, d₁, d₁', heq, heq', h₁⟩ := (h.bindFields he he.map_fst_data).exists_eq
  rw [Draft.update, Draft.update]
  simp only [heq, heq', he.deleted, he.paramFor, h₁.names]
  have hassigned := h₁.assign (fields.map (fun f => Assignment.mk name f.1 (some f.2)) ++
    e.deleted.map (Assignment.mk name · none))
  exact (hassigned.withNames _).askId name _ id id'

/-! ### Steps -/

theorem introduce (h : Alike R m m' d d') (he : e.Corresponds R m m' e') (key : EntityKey) :
    Agree R m m' (d.introduce m key e) (d'.introduce m' key e') := by
  obtain ⟨name, d₁, d₁', hdefine, hdefine', h₁⟩ := h.define he key
  obtain ⟨placed, d₂, d₂', hplace, hplace', h₂⟩ := (h₁.place name).exists_eq
  have hbound := (he.bindVariable name).toSameShape
  rw [Draft.introduce, Draft.introduce, hdefine, hdefine']
  simp only [hplace, hplace']
  cases placed with
  | true => exact ⟨rfl, h₂⟩
  | false =>
    rcases hbound.id_cases with ⟨hid, hid'⟩ | ⟨id, id', hid, hid'⟩
    · obtain ⟨fields, d₃, d₃', heq, heq', h₃⟩ :=
        (h₂.bindFields hbound hbound.map_fst_data).exists_eq
      simp only [hid, hid', heq, heq', hbound.labels]
      exact ⟨rfl, h₃.addReturn name⟩
    · simp only [hid, hid']
      exact ⟨rfl, ((h₂.addMatch _).update hbound name id id').addReturn name⟩

/-- A node of the batch is written in the same way. -/
theorem saveNode (h : Alike R m m' d d') (he : e.Corresponds R m m' e') (key : EntityKey) :
    Alike R m m' (d.saveNode m key e) (d'.saveNode m' key e') := by
  obtain ⟨⟨spelled, p⟩, d₁, d₁', heq, heq', h₁⟩ := (h.introduce he key).exists_eq
  rw [Draft.saveNode, Draft.saveNode, heq, heq']
  cases spelled with
  | true => exact h₁.addCreate (.node p)
  | false => exact h₁

/-- Bare ids that correspond have the same variable, or none has one. -/
theorem lookup_boundIds (h : Alike R m m' d d') (hR : OneToOne R) {i i' : Int64} (hi : R i i') :
    d'.boundIds.lookup i' = d.boundIds.lookup i := by
  have hids := h.boundIds
  generalize d.boundIds = ids at hids
  generalize d'.boundIds = ids' at hids
  induction hids with
  | nil => rfl
  | @cons a a' rest rest' hhead hrest ih =>
    obtain ⟨j, name⟩ := a
    obtain ⟨j', name'⟩ := a'
    obtain ⟨hj, rfl⟩ := hhead
    rw [List.lookup_cons, List.lookup_cons, ih]
    have hsame : (i' == j') = (i == j) := by
      rw [Bool.eq_iff_iff, beq_iff_eq, beq_iff_eq]
      exact (hR i j i' j' hi hj).symm
    rw [hsame]

/-- Bare ids that correspond are mentioned in the same way. -/
theorem introduceId (h : Alike R m m' d d') (hR : OneToOne R) {i i' : Int64} (hi : R i i') :
    Agree R m m' (d.introduceId i) (d'.introduceId i') := by
  rw [Draft.introduceId, Draft.introduceId, h.lookup_boundIds hR hi]
  cases d.boundIds.lookup i with
  | some name => exact ⟨rfl, h⟩
  | none =>
    obtain ⟨name, names, hallocate⟩ : ∃ name names,
        d.names.allocate .node = (name, names) := ⟨_, _, rfl⟩
    obtain ⟨param, names', hparam⟩ : ∃ param names',
        names.param name genericNodeName "id" = (param, names') := ⟨_, _, rfl⟩
    simp only [h.names, hallocate, hparam]
    have hasked := ((h.withNames names').addMatch (.node ⟨name, [], []⟩)).askId name param i i'
    exact ⟨rfl, { hasked with
      boundIds := List.rel_append hasked.boundIds (.cons ⟨hi, rfl⟩ .nil) }⟩

theorem introduceEnd (h : Alike R m m' d d') (hR : OneToOne R) {x x' : Option Endpoint}
    (hx : Option.Rel (Endpoint.Corresponds R) x x') :
    Agree R m m' (d.introduceEnd m x) (d'.introduceEnd m' x') := by
  cases hx with
  | none => exact ⟨rfl, h⟩
  | some hx =>
    cases hx with
    | id hi => exact h.introduceId hR hi
    | entity key =>
      simp only [Draft.introduceEnd]
      rcases h.store.cases key with ⟨hnone, hnone'⟩ | ⟨e, e', he, he', hentity⟩
      · simp only [hnone, hnone']
        exact ⟨rfl, h⟩
      · obtain ⟨⟨spelled, p⟩, d₁, d₁', heq, heq', h₁⟩ := (h.introduce hentity key).exists_eq
        simp only [he, he', heq, heq']
        exact ⟨rfl, h₁⟩

/-- A relationship of the batch is written in the same way. -/
theorem saveRelationship (h : Alike R m m' d d') (hR : OneToOne R)
    (he : e.Corresponds R m m' e') (key : EntityKey) :
    Alike R m m' (d.saveRelationship m key e) (d'.saveRelationship m' key e') := by
  obtain ⟨name, d₁, d₁', hdefine, hdefine', h₁⟩ := h.define he key
  obtain ⟨placed, d₂, d₂', hplace, hplace', h₂⟩ := (h₁.place name).exists_eq
  have hbound := he.bindVariable name
  rw [Draft.saveRelationship, Draft.saveRelationship, hdefine, hdefine']
  simp only [hplace, hplace']
  cases placed with
  | true => exact h₂
  | false =>
    obtain ⟨start, d₃, d₃', hstart, hstart', h₃⟩ :=
      (h₂.introduceEnd hR (hbound.ends .start)).exists_eq
    obtain ⟨finish, d₄, d₄', hfinish, hfinish', h₄⟩ :=
      (h₃.introduceEnd hR (hbound.ends .finish)).exists_eq
    simp only [hstart, hstart', hfinish, hfinish']
    rcases hbound.id_cases with ⟨hid, hid'⟩ | ⟨id, id', hid, hid'⟩
    · obtain ⟨fields, d₅, d₅', heq, heq', h₅⟩ :=
        (h₄.bindFields hbound.toSameShape hbound.map_fst_data).exists_eq
      simp only [hid, hid', heq, heq', hbound.labels]
      exact (h₅.addCreate _).addReturn name
    · simp only [hid, hid', hbound.labels]
      exact ((h₄.addMatch _).update hbound.toSameShape name id id').addReturn name

/-- An entity of the batch is written in the same way. -/
theorem save (h : Alike R m m' d d') (hR : OneToOne R) (key : EntityKey) :
    Alike R m m' (d.save m key) (d'.save m' key) := by
  rw [Draft.save, Draft.save]
  rcases h.store.cases key with ⟨hnone, hnone'⟩ | ⟨e, e', he, he', hentity⟩
  · simp only [hnone, hnone']
    exact h
  · simp only [he, he', hentity.isNode]
    split
    · exact h.saveNode hentity key
    · exact h.saveRelationship hR hentity key

theorem saveAll (h : Alike R m m' d d') (hR : OneToOne R) (keys : List EntityKey) :
    Alike R m m' (keys.foldl (fun d key => d.save m key) d)
      (keys.foldl (fun d key => d.save m' key) d') := by
  induction keys generalizing d d' with
  | nil => exact h
  | cons key rest ih => exact ih (h.save hR key)

end Draft.Alike

end GraphMapping
