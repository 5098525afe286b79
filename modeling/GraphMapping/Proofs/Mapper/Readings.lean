import GraphMapping.Proofs.Dict
import GraphMapping.Proofs.Lifecycle.Restraint
import GraphMapping.Proofs.Mapper.Calls
import GraphMapping.Proofs.Mapper.Loading
import GraphMapping.Proofs.Work.Restoration

/-!
# Readings

Entities are loaded by id, over a relationship and by a query. All three execute one statement at
most, and load values of the answer to it, in order and up to the first that cannot be loaded. On
the way to the statement an entity may be given a variable, but it is taken back before anything is
executed. So whatever the arguments and the answers are, and however the reading ends, it leaves the
pending work as it is and does one of two things to the store for each value: it loads data into the
entity that is stored under its identity, or it stores a new entity.

An entity with unsaved work on it is not changed at all. Work is unsaved if an operation is pending
on the entity, if a pending save stands for its save, and if its data differs from the baseline.

## Main definitions

* `Mapper.Reading`, `Mapper.read`, `Mapper.readAll`: what loads entities.
* `Connection.Offers`: a value in an answer to come.
* `Mapper.Fetches`: what a reading does.
* `Library.Leaves`: what loading leaves as it was.
* `Mapper.Unsaved`: there is unsaved work on an entity.

## Main results

* `Library.load_cases`: what loading one value does.
* `Mapper.fetches_read`: every kind of reading fetches.
* `Mapper.readings_leave_work`: previews and readings leave the pending work alone.
* `Mapper.readAll_keeps_unsaved`: no sequence of readings touches an entity with unsaved work.
-/

namespace GraphMapping

variable {σ : Type}

/-! ### What loading one value does -/

namespace Library

variable {m : Moment} {lib lib' lib'' : Library} {key : EntityKey} {value : GraphValue}

theorem adopt_inv {schema : Schema} {new : NewEntity} {properties : Dict Value}
    (h : lib.adopt schema new properties = .ok (key, lib')) :
    ∃ e, e.id = new.id ∧ e.queryVariable = none ∧ e.kind = schema.kind ∧
      (schema.kind = .node → new.start = none) ∧
      key = (lib.store.insert e).1 ∧ lib' = { lib with store := (lib.store.insert e).2 } := by
  rw [adopt] at h
  cases hnew : schema.instantiate new with
  | error err => simp [hnew, Except.map] at h
  | ok e =>
    rw [hnew] at h
    obtain ⟨rfl, rfl⟩ := Prod.mk.inj (Except.ok.inj h)
    have hmakes := Schema.makes_of_instantiate hnew
    exact ⟨e.load properties.toList, hmakes.id, hmakes.queryVariable, hmakes.kind,
      fun hnode => (hmakes.node hnode).1, rfl, rfl⟩

/-- What loading a value does. The entity that is stored under the identity of the value is
refreshed. If there is none, a new entity is stored, which is of the kind of the value unless its
type is registered for the other kind; this happens to nodes only. -/
theorem load_cases (h : lib.load m value = .ok (key, lib')) :
    ∃ kind id, value.identity? = some (kind, id) ∧
      ((lib.store.findById? id kind = some key ∧
          ∃ properties, lib' = lib.refresh m key properties) ∨
        (lib.store.findById? id kind = none ∧
          (lib.catalog.Suits value ∨ value.isNode = true) ∧
          ∃ e, e.id = some id ∧ e.queryVariable = none ∧ (e.kind = kind ↔ lib.catalog.Suits value) ∧
            key = (lib.store.insert e).1 ∧
            lib' = { lib with store := (lib.store.insert e).2 })) := by
  cases value with
  | scalar v => cases h
  | node raw =>
    refine ⟨.node, raw.id, rfl, ?_⟩
    rw [load, loadNode] at h
    cases hfound : lib.store.findById? raw.id .node with
    | some found =>
      rw [hfound] at h
      obtain ⟨rfl, rfl⟩ := Prod.mk.inj (Except.ok.inj h)
      exact .inl ⟨rfl, _, rfl⟩
    | none =>
      rw [hfound] at h
      obtain ⟨e, hid, hunbound, hkind, -, hkey, hlib⟩ := adopt_inv h
      exact .inr ⟨rfl, .inr rfl, e, hid, hunbound, by rw [hkind]; rfl, hkey, hlib⟩
  | relationship raw =>
    refine ⟨.relationship, raw.id, rfl, ?_⟩
    rw [load, loadRelationship] at h
    cases hfound : lib.store.findById? raw.id .relationship with
    | some found =>
      rw [hfound] at h
      obtain ⟨rfl, rfl⟩ := Prod.mk.inj (Except.ok.inj h)
      exact .inl ⟨rfl, _, rfl⟩
    | none =>
      rw [hfound] at h
      obtain ⟨e, hid, hunbound, hkind, hends, hkey, hlib⟩ := adopt_inv h
      -- a node type refuses the ends
      have hsuits : lib.catalog.Suits (.relationship raw) := by
        cases hschema : (lib.catalog.resolve raw.type .relationship).kind with
        | node => exact absurd (hends hschema) (Option.some_ne_none _)
        | relationship => exact hschema
      exact .inr ⟨rfl, .inl hsuits, e, hid, hunbound, by rw [hkind]; rfl, hkey, hlib⟩

end Library

/-! ### What loading leaves as it was -/

/-- The second entity is the first one with other data: it is also labelled as the first one. -/
structure Entity.Reloads (e e' : Entity) : Prop extends e.Edits e' where
  labels : e'.labels = e.labels

theorem Entity.Reloads.refl (e : Entity) : e.Reloads e := ⟨.refl e, rfl⟩

theorem Entity.Reloads.trans {e e' e'' : Entity} (h : e.Reloads e') (h' : e'.Reloads e'') :
    e.Reloads e'' :=
  ⟨h.toEdits.trans h'.toEdits, h'.labels.trans h.labels⟩

theorem Entity.reloads_load (e : Entity) (pairs : List (String × Value)) :
    e.Reloads (e.load pairs) :=
  ⟨⟨⟨rfl, rfl, rfl⟩, rfl, rfl⟩, rfl⟩

namespace Library

variable {m : Moment} {lib lib' lib'' : Library}

/-- From a library to a later one, schemas and pending work are the same. No stored entity is lost,
and what changes in it is data; with unsaved work on it, nothing does. -/
structure Leaves (m : Moment) (lib lib' : Library) : Prop where
  catalog : lib'.catalog = lib.catalog
  work : lib'.work = lib.work
  stored : ∀ key e, lib.store.get? key = some e → ∃ e', lib'.store.get? key = some e' ∧
    e.Reloads e' ∧ (lib.isProtected m key e = true → e' = e)

namespace Leaves

theorem refl (m : Moment) (lib : Library) : lib.Leaves m lib :=
  ⟨rfl, rfl, fun _ e he => ⟨e, he, .refl e, fun _ => rfl⟩⟩

theorem trans (h : lib.Leaves m lib') (h' : lib'.Leaves m lib'') : lib.Leaves m lib'' where
  catalog := h'.catalog.trans h.catalog
  work := h'.work.trans h.work
  stored key e he := by
    obtain ⟨e', he', hreloads, hsame⟩ := h.stored key e he
    obtain ⟨e'', he'', hreloads', hsame'⟩ := h'.stored key e' he'
    refine ⟨e'', he'', hreloads.trans hreloads', fun hprotected => ?_⟩
    obtain rfl := hsame hprotected
    -- the pending work is the same, so the entity is still protected
    have hstill : lib'.isProtected m key e' = true := by
      rw [isProtected, h.work]
      exact hprotected
    exact hsame' hstill

theorem refresh (lib : Library) (m : Moment) (key : EntityKey) (properties : Dict Value) :
    lib.Leaves m (lib.refresh m key properties) := by
  rcases lib.refresh_cases m key properties with h | ⟨e, he, hunprotected, h⟩
  · rw [h]
    exact .refl m lib
  · rw [h]
    refine ⟨rfl, rfl, fun other e' he' => ?_⟩
    by_cases hother : other = key
    · subst hother
      obtain rfl := Option.some.inj (he.symm.trans he')
      exact ⟨e.load properties.toList, Store.get?_modify_of_get? he _, e.reloads_load _,
        fun hprotected => nomatch hprotected.symm.trans hunprotected⟩
    · exact ⟨e', (Store.get?_modify_of_ne _ hother _).trans he', .refl e', fun _ => rfl⟩

theorem load {value : GraphValue} {key : EntityKey} (h : lib.load m value = .ok (key, lib')) :
    lib.Leaves m lib' := by
  obtain ⟨kind, id, -, ⟨-, properties, rfl⟩ | ⟨-, -, new, -, -, -, -, rfl⟩⟩ := load_cases h
  · exact .refresh lib m key properties
  · exact ⟨rfl, rfl, fun _ e he => ⟨e, Store.get?_insert_of_some he new, .refl e, fun _ => rfl⟩⟩

/-- Loading several values, also when one of them cannot be loaded. -/
theorem loadAll (lib : Library) (m : Moment) (keys : List EntityKey) (values : List GraphValue) :
    lib.Leaves m (lib.loadAll m keys values).2 := by
  induction values generalizing lib keys with
  | nil => exact .refl m lib
  | cons value rest ih =>
    rw [Library.loadAll]
    cases hload : lib.load m value with
    | error err => exact .refl m lib
    | ok loaded => exact (Leaves.load hload).trans (ih _ _)

end Leaves

end Library

/-! ### Executing a statement -/

/-- The value is in a row of an answer that the connection may give. -/
def Connection.Offers (c : Connection) (value : GraphValue) : Prop :=
  ∃ answer ∈ c.answers, ∃ statement result, answer statement = .ok result ∧
    ∃ row ∈ result.rows, ∃ name, row.get? name = some value

/-- When answers have been used up, there is less on offer. So what a later reading has loaded was
on offer from the beginning. -/
theorem Connection.Offers.of_suffix {c c' : Connection} {value : GraphValue} (h : c'.Offers value)
    (hsuffix : c'.answers <:+ c.answers) : c.Offers value := by
  obtain ⟨answer, hanswer, hvalue⟩ := h
  exact ⟨answer, hsuffix.subset hanswer, hvalue⟩

/-- Executing a statement uses up an answer at most, and what comes back is in it. -/
theorem Connection.execute_inv {c c' : Connection} {statement : Statement}
    {outcome : Except MapperError QueryResult} (h : c.execute statement = (outcome, c')) :
    c'.answers <:+ c.answers ∧ ∀ result, outcome = .ok result → ∀ row ∈ result.rows,
      ∀ name value, row.get? name = some value → c.Offers value := by
  rw [execute, answer] at h
  cases hanswers : c.answers with
  | nil =>
    rw [hanswers] at h
    obtain ⟨rfl, rfl⟩ := Prod.mk.inj h
    refine ⟨List.suffix_rfl, fun result hok row hrow => ?_⟩
    obtain rfl := Except.ok.inj hok
    exact absurd hrow List.not_mem_nil
  | cons reply rest =>
    rw [hanswers] at h
    obtain ⟨rfl, rfl⟩ := Prod.mk.inj h
    refine ⟨List.suffix_cons reply rest, fun result hok row hrow name value hvalue => ?_⟩
    have hmem : reply ∈ c.answers := hanswers ▸ List.mem_cons_self
    cases hreply : reply statement with
    | error err => simp [hreply, Except.mapError] at hok
    | ok result' =>
      rw [hreply] at hok
      obtain rfl := Except.ok.inj hok
      exact ⟨reply, hmem, statement, result', hreply, row, hrow, name, hvalue⟩

namespace Mapper

variable {mapper mapper' : Mapper σ} {m : Moment}

/-! ### What a reading does -/

/-- A call that loads entities. -/
inductive Reading where
  | getById (id : Int64) (kind : EntityKind)
  | related (key : EntityKey) (traversal : Traversal) (other : String)
  | query (statement : Statement)

/-- The mapper after a reading, however it ends. -/
def read (mapper : Mapper σ) (m : Moment) : Reading → Mapper σ
  | .getById id kind => (mapper.getById m id kind).2
  | .related key traversal other => (mapper.related m key traversal other).2
  | .query statement => (mapper.query m statement).2

/-- The mapper after some readings, each at its moment. -/
def readAll (mapper : Mapper σ) (readings : List (Moment × Reading)) : Mapper σ :=
  readings.foldl (fun mapper reading => mapper.read reading.1 reading.2) mapper

/-- The second mapper is the first one with fewer answers to come, and with values loaded that the
answers offer. -/
def Fetches (mapper : Mapper σ) (m : Moment) (mapper' : Mapper σ) : Prop :=
  ∃ connection values, connection.answers <:+ mapper.connection.answers ∧
    (∀ value ∈ values, mapper.connection.Offers value) ∧
    mapper' = { mapper with connection, store := (mapper.library.loadAll m [] values).2.store }

namespace Fetches

theorem refl (mapper : Mapper σ) (m : Moment) : mapper.Fetches m mapper :=
  ⟨mapper.connection, [], List.suffix_rfl, fun _ h => absurd h List.not_mem_nil, rfl⟩

/-- A statement that is executed, with the values of its result that are loaded. -/
theorem of_execute (values : List GraphValue) {statement : Statement}
    {outcome : Except MapperError QueryResult}
    (h : mapper.execute statement = (outcome, mapper'))
    (hvalues : ∀ value ∈ values, ∃ result, outcome = .ok result ∧ ∃ row ∈ result.rows,
      ∃ name, row.get? name = some value) :
    mapper.Fetches m (mapper'.loadAll m values).2 := by
  obtain ⟨rfl, rfl⟩ := Prod.mk.inj h
  obtain ⟨hsuffix, hoffers⟩ := Connection.execute_inv
    (Prod.ext rfl rfl : mapper.connection.execute statement = (_, _))
  refine ⟨_, values, hsuffix, fun value hvalue => ?_, rfl⟩
  obtain ⟨result, hok, row, hrow, name, hread⟩ := hvalues value hvalue
  exact hoffers result hok row hrow name value hread

theorem of_execute_nil {statement : Statement} {outcome : Except MapperError QueryResult}
    (h : mapper.execute statement = (outcome, mapper')) : mapper.Fetches m mapper' :=
  of_execute [] h fun _ hvalue => absurd hvalue List.not_mem_nil

end Fetches

/-- The values of a column come from rows of the result. -/
theorem mem_returnedValues {statement : Statement} {result : QueryResult} {value : GraphValue}
    (h : value ∈ returnedValues statement result) :
    ∃ row ∈ result.rows, ∃ name, row.get? name = some value := by
  obtain ⟨row, hrow, hread⟩ := List.mem_filterMap.mp h
  exact ⟨row, hrow, _, hread⟩

/-- The entities of a row are the nodes and relationships in it. -/
theorem mem_entitiesOf {row : Row} {value : GraphValue} :
    value ∈ entitiesOf row ↔ (∃ name, row.get? name = some value) ∧ (value.identity?).isSome := by
  have hvalue : value ∈ row.toList.map (·.2) ↔ ∃ name, row.get? name = some value := by
    simp only [Dict.get?_eq_some_iff, List.mem_map, Prod.exists, exists_eq_right]
  rw [entitiesOf, List.mem_append, List.mem_filter, List.mem_filter, hvalue, ← and_or_left]
  cases value <;> simp [GraphValue.isNode, GraphValue.isRelationship, GraphValue.identity?]

theorem fetches_getById (mapper : Mapper σ) (m : Moment) (id : Int64) (kind : EntityKind) :
    mapper.Fetches m (mapper.getById m id kind).2 := by
  rw [getById]
  cases mapper.lookupStatement id kind with
  | error err => exact .refl mapper m
  | ok statement =>
    dsimp only
    rcases hrun : mapper.execute statement with ⟨_ | result, mapper₁⟩
    · exact .of_execute_nil hrun
    · dsimp only
      split
      · exact .of_execute_nil hrun
      · rename_i value hvalues
        refine .of_execute [value] hrun fun value' hvalue' => ⟨result, rfl, ?_⟩
        rw [← hvalues] at hvalue'
        exact mem_returnedValues hvalue'
      · exact .of_execute_nil hrun

theorem fetches_related (mapper : Mapper σ) (m : Moment) (key : EntityKey) (t : Traversal)
    (other : String) : mapper.Fetches m (mapper.related m key t other).2 := by
  have hrestored := composeTraversal_restored mapper.store .fresh key t other
  rw [related]
  dsimp only at hrestored ⊢
  rw [hrestored]
  cases (composeTraversal mapper.store .fresh key t other).outcome with
  | error err => exact .refl mapper m
  | ok statement =>
    dsimp only
    rcases hrun : mapper.execute statement with ⟨_ | result, mapper₁⟩
    · exact .of_execute_nil hrun
    · exact .of_execute _ hrun fun value hvalue => ⟨result, rfl, mem_returnedValues hvalue⟩

theorem fetches_query (mapper : Mapper σ) (m : Moment) (statement : Statement) :
    mapper.Fetches m (mapper.query m statement).2 := by
  rw [query]
  rcases hrun : mapper.execute statement with ⟨_ | result, mapper₁⟩
  · exact .of_execute_nil hrun
  · refine .of_execute _ hrun fun value hvalue => ⟨result, rfl, ?_⟩
    obtain ⟨row, hrow, hmem⟩ := List.mem_flatMap.mp hvalue
    obtain ⟨name, hread⟩ := (mem_entitiesOf.mp hmem).1
    exact ⟨row, hrow, name, hread⟩

theorem fetches_read (mapper : Mapper σ) (m : Moment) (reading : Reading) :
    mapper.Fetches m (mapper.read m reading) := by
  cases reading with
  | getById id kind => exact mapper.fetches_getById m id kind
  | related key traversal other => exact mapper.fetches_related m key traversal other
  | query statement => exact mapper.fetches_query m statement

theorem leaves_read (mapper : Mapper σ) (m : Moment) (reading : Reading) :
    mapper.library.Leaves m (mapper.read m reading).library := by
  obtain ⟨connection, values, -, -, hread⟩ := mapper.fetches_read m reading
  have hleaves := Library.Leaves.loadAll mapper.library m [] values
  rw [hread]
  exact ⟨rfl, rfl, hleaves.stored⟩

/-! ### Pending work -/

theorem queries_untouched (mapper : Mapper σ) (m : Moment) : (mapper.queries m).2 = mapper :=
  congrArg (fun store => { mapper with store }) (Work.preview_store mapper.work m mapper.store)

/-- **Previews and readings leave the pending work alone.** Whatever state a mapper is in, a preview
leaves all of it as it is, also when it fails. A reading may change and add entities, but leaves
the pending operations, the counters of the names that are handed out for them, and the variable of
every entity that is stored already. -/
theorem readings_leave_work (mapper : Mapper σ) (m : Moment) :
    (mapper.queries m).2 = mapper ∧
      ∀ reading, (mapper.read m reading).work = mapper.work ∧
        ∀ key e, mapper.store.get? key = some e →
          ∃ e', (mapper.read m reading).store.get? key = some e' ∧
            e'.queryVariable = e.queryVariable := by
  refine ⟨mapper.queries_untouched m, fun reading => ?_⟩
  have hleaves := mapper.leaves_read m reading
  refine ⟨hleaves.work, fun key e he => ?_⟩
  obtain ⟨e', he', hreloads, -⟩ := hleaves.stored key e he
  exact ⟨e', he', hreloads.queryVariable⟩

/-! ### Unsaved work -/

/-- There is unsaved work on the entity: an operation is pending on it, or a pending save stands for
its save, or it has changes or removed properties. -/
def Unsaved (mapper : Mapper σ) (m : Moment) (key : EntityKey) (e : Entity) : Prop :=
  (∃ op ∈ mapper.work.operations, op.key = key ∨ key ∈ op.absorbed) ∨
    (e.changed m).isEmpty = false ∨ e.deleted ≠ []

theorem unsaved_iff {key : EntityKey} {e : Entity} :
    mapper.Unsaved m key e ↔ mapper.library.isProtected m key e = true := by
  have hcovers : mapper.work.covers key = true ↔
      ∃ op ∈ mapper.work.operations, op.key = key ∨ key ∈ op.absorbed := by
    simp [Work.covers]
  rw [Unsaved, ← hcovers, Library.isProtected, Bool.or_eq_true, Bool.or_eq_true, or_assoc]
  simp [library]

theorem readAll_append (mapper : Mapper σ) (before after : List (Moment × Reading)) :
    mapper.readAll (before ++ after) = (mapper.readAll before).readAll after :=
  List.foldl_append ..

/-- Readings leave every entity stored, with what it is apart from its data. New entities go behind
the stored ones, so a key means the same entity before and after. -/
theorem exists_reloads_readAll (mapper : Mapper σ) (readings : List (Moment × Reading))
    {key : EntityKey} {e : Entity} (he : mapper.store.get? key = some e) :
    ∃ e', (mapper.readAll readings).store.get? key = some e' ∧ e.Reloads e' := by
  induction readings generalizing mapper e with
  | nil => exact ⟨e, he, .refl e⟩
  | cons reading rest ih =>
    obtain ⟨e', he', hreloads, -⟩ := (mapper.leaves_read reading.1 reading.2).stored key e he
    obtain ⟨e'', he'', hreloads'⟩ := ih (mapper.read reading.1 reading.2) he'
    exact ⟨e'', he'', hreloads.trans hreloads'⟩

/-- Readings leave an entity as it is as long as there is unsaved work on it. -/
theorem get?_readAll_of_unsaved (mapper : Mapper σ) {readings : List (Moment × Reading)}
    {key : EntityKey} {e : Entity} (he : mapper.store.get? key = some e)
    (hunsaved : ∀ reading ∈ readings, mapper.Unsaved reading.1 key e) :
    (mapper.readAll readings).store.get? key = some e := by
  induction readings generalizing mapper with
  | nil => exact he
  | cons reading rest ih =>
    obtain ⟨hfirst, hrest⟩ := List.forall_mem_cons.mp hunsaved
    have hleaves := mapper.leaves_read reading.1 reading.2
    obtain ⟨e', he', -, hsame⟩ := hleaves.stored key e he
    obtain rfl := hsame (unsaved_iff.mp hfirst)
    have hwork : (mapper.read reading.1 reading.2).work = mapper.work := hleaves.work
    refine ih (mapper.read reading.1 reading.2) he' fun later hlater => ?_
    rw [Unsaved, hwork]
    exact hrest later hlater

/-- **Loading never disturbs unsaved work.** Whatever is read, in whatever order, and whatever comes
back, every entity stays stored under its key with its id, type name, labels and ends. Over every
stretch of readings with unsaved work on the entity at the moment of each, all of it stays the
same. -/
theorem readAll_keeps_unsaved (mapper : Mapper σ) (readings : List (Moment × Reading))
    {key : EntityKey} {e : Entity} (he : mapper.store.get? key = some e) :
    (∃ e', (mapper.readAll readings).store.get? key = some e' ∧ e'.id = e.id ∧
      e'.typeName = e.typeName ∧ e'.labels = e.labels ∧ e'.shape = e.shape) ∧
    ∀ before during after, readings = before ++ during ++ after →
      ∀ e₁, (mapper.readAll before).store.get? key = some e₁ →
        (∀ reading ∈ during, (mapper.readAll before).Unsaved reading.1 key e₁) →
          (mapper.readAll (before ++ during)).store.get? key = some e₁ := by
  constructor
  · obtain ⟨e', he', hreloads⟩ := mapper.exists_reloads_readAll readings he
    exact ⟨e', he', hreloads.id, hreloads.typeName, hreloads.labels, hreloads.shape⟩
  · intro before during after _ e₁ he₁ hunsaved
    rw [readAll_append]
    exact (mapper.readAll before).get?_readAll_of_unsaved he₁ hunsaved

/-- A persisted node that takes on what is loaded. -/
def person (id : Int64) (deleted : List String) : Entity :=
  { Entity.node "Person" ["Person"] (.ofDeclared [] true) with id := some id, deleted }

/-- Two persisted nodes, one with a removed property, and a connection that answers two statements
with both nodes, now with names. -/
def forgetful : Mapper Unit :=
  let named (id : Int64) : GraphValue := .node ⟨id, ["Person"], .ofList [("name", .string "Ada")]⟩
  { new {} { answers := List.replicate 2 fun s => .ok ⟨s.returns.flatMap fun name =>
      [.ofList [(name, named 5)], .ofList [(name, named 6)]]⟩ } () with
    store := ⟨[person 5 ["name"], person 6 []]⟩ }

/-- The first node stays as it is, the second one is refreshed. -/
theorem readAll_keeps_unsaved_removal :
    let readings : List (Moment × Reading) :=
      [(.epoch, .query ⟨"MATCH (n) RETURN n", .empty, ["n"]⟩),
        (.epoch, .related ⟨1⟩ { type := "Knows" } "x")]
    forgetful.store.get? ⟨0⟩ = some (person 5 ["name"]) ∧
      (∀ reading ∈ readings, forgetful.Unsaved reading.1 ⟨0⟩ (person 5 ["name"])) ∧
      (forgetful.readAll readings).store.get? ⟨0⟩ = some (person 5 ["name"]) ∧
      ((forgetful.readAll readings).store.get? ⟨1⟩).map (·.properties.contains "name") =
        some true ∧ (forgetful.readAll readings).connection.answers.length = 0 := by
  intro readings
  have hunsaved : ∀ m, forgetful.Unsaved m ⟨0⟩ (person 5 ["name"]) :=
    fun m => .inr (.inr (List.cons_ne_nil _ _))
  exact ⟨rfl, fun reading _ => hunsaved reading.1,
    (readAll_keeps_unsaved forgetful readings rfl).2 [] readings [] (List.append_nil _).symm _ rfl
      fun reading _ => hunsaved reading.1, by rfl, by rfl⟩

end Mapper

end GraphMapping
