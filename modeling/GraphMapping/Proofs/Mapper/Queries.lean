import GraphMapping.Proofs.Connection.Columns
import GraphMapping.Proofs.Mapper.Readings
import GraphMapping.Proofs.Statement.SaveBatch

/-!
# What a query loads

A query over Bolt passes through three hands. The statement says which variables it tracks, the
connection decodes these columns of the answer, and the mapper loads the nodes and relationships of
the rows. So a query loads exactly what the answer holds in tracked columns. The nodes of a row come
before its relationships, but this makes no difference to which entities are loaded.

The hands do not agree on hand-written statements. These track nothing, so that nothing is decoded
for them and nothing is loaded, whatever the answer holds.

## Main definitions

* `Mapper.QueryLoads`: what a query makes of an answer.

## Main results

* `Mapper.query_loads_tracked`: a query over Bolt loads what its statement tracks.
* `Mapper.query_omits_untracked`: a hand-written query loads nothing of an answer with a node.
-/

namespace GraphMapping

variable {σ : Type}

/-- The answer holds a node or relationship in one of the columns. -/
def Bolt.Table.Holds (table : Bolt.Table) (columns : List String)
    (identity : EntityKind × Int64) : Prop :=
  ∃ record ∈ table.records, ∃ name ∈ columns,
    (table.value? record name).bind GraphValue.identity? = some identity

/-- Nothing in the columns has a type that is registered for the other kind. -/
def Bolt.Table.Suited (table : Bolt.Table) (columns : List String) (catalog : Catalog) : Prop :=
  ∀ record ∈ table.records, ∀ name ∈ columns, ∀ value ∈ table.value? record name,
    catalog.Suits value

namespace Mapper

/-- What a query makes of an answer: it loads what the answer holds in tracked columns. -/
structure QueryLoads (mapper : Mapper σ) (m : Moment) (s : Statement) (table : Bolt.Table) :
    Prop where
  /-- When all tracked columns are there, and no type is registered for the other kind, the query
  succeeds: its rows bind the tracked variables, and its keys stand for what is in them. -/
  complete : table.Complete s.returns → table.Suited s.returns mapper.catalog →
    ∃ result keys, (mapper.query m s).1 = .ok (result, keys) ∧
      table.Reads s.returns result.rows ∧ keys.Nodup ∧
      (∀ identity, table.Holds s.returns identity →
        ∃ key ∈ keys, (mapper.query m s).2.store.identityOf? key = some identity) ∧
      ∀ key ∈ keys, ∃ identity, table.Holds s.returns identity ∧
        (mapper.query m s).2.store.identityOf? key = some identity
  /-- Otherwise the query fails for a record and a tracked column that is missing in it. -/
  incomplete : ¬ table.Complete s.returns →
    ∃ record ∈ table.records, ∃ name ∈ s.returns, table.value? record name = none ∧
      (mapper.query m s).1 =
        .error (.classify (.decode name "The property does not exist")) ∧
      (mapper.query m s).2.store = mapper.store
  /-- A hand-written query succeeds with empty rows. It loads nothing. -/
  handwritten : ∀ text params, s = .handwritten text params →
    (mapper.query m s).1 = .ok (⟨table.records.map fun _ => .empty⟩, []) ∧
      (mapper.query m s).2.store = mapper.store

variable {mapper : Mapper σ} {s : Statement} {server : Bolt.Request → Except ConnectionError Bolt.Table}
  {rest : List Answer} {table : Bolt.Table}

/-- A statement is executed by decoding the answer to it. -/
theorem execute_bolt (hconnection : mapper.connection.answers = Bolt.execute server :: rest)
    (hserver : server (Bolt.request s) = .ok table) :
    mapper.execute s = ((Bolt.decode s.returns table).mapError MapperError.classify,
      { mapper with connection := ⟨rest, mapper.connection.executed ++ [s]⟩ }) := by
  rw [execute, Connection.execute, Connection.answer, hconnection]
  simp only [Bolt.execute, hserver]

/-- A query loads the entities of the result. -/
theorem query_of_execute {m : Moment} {result : QueryResult} {mapper' : Mapper σ}
    {keys : List EntityKey} {lib : Library} (hexecute : mapper.execute s = (.ok result, mapper'))
    (hload : mapper'.library.loadAll m [] (result.rows.flatMap entitiesOf) = (.ok keys, lib)) :
    mapper.query m s = (.ok (result, keys), { mapper' with store := lib.store }) := by
  rw [query, hexecute]
  simp only [loadAll, hload, Except.map]

/-- **A query over Bolt loads what its statement tracks.** Let the connection decode what a server
answers. When every record of the answer has all tracked columns, the rows bind the tracked
variables and nothing else, and the keys are those of the nodes and relationships in tracked
columns, each of them and no others. A tracked column that is missing is an error. A hand-written
statement tracks nothing, whatever parameters it has: its rows are empty, and nothing is loaded. -/
theorem query_loads_tracked (m : Moment)
    (hconnection : mapper.connection.answers = Bolt.execute server :: rest)
    (hserver : server (Bolt.request s) = .ok table) : mapper.QueryLoads m s table := by
  have hexecute := execute_bolt hconnection hserver
  constructor
  case complete =>
    intro hcomplete hsuits
    obtain ⟨result, hdecode⟩ := Bolt.exists_decode_iff.mpr hcomplete
    have hreads := Bolt.Table.reads_of_decode hdecode
    rw [hdecode] at hexecute
    have hvalues : ∀ value, value ∈ result.rows.flatMap entitiesOf ↔
        (∃ record ∈ table.records, ∃ name ∈ s.returns, table.value? record name = some value) ∧
          (value.identity?).isSome := by
      intro value
      simp only [List.mem_flatMap, mem_entitiesOf, ← hreads.exists_iff]
      tauto
    have hidentity : ∀ value ∈ result.rows.flatMap entitiesOf, (value.identity?).isSome :=
      fun value hvalue => ((hvalues value).mp hvalue).2
    have hsuited : ∀ value ∈ result.rows.flatMap entitiesOf,
        mapper.library.catalog.Suits value := by
      intro value hvalue
      obtain ⟨⟨record, hrecord, name, hname, hread⟩, -⟩ := (hvalues value).mp hvalue
      exact hsuits record hrecord name hname value hread
    obtain ⟨keys, lib', hloadAll, hloads⟩ := Library.exists_loadAll (m := m) [] hidentity hsuited
    rw [query_of_execute hexecute hloadAll]
    refine ⟨result, keys, rfl, hreads, hloads.nodup List.nodup_nil, ?_, fun key hkey => ?_⟩
    · rintro identity ⟨record, hrecord, name, hname, hread⟩
      obtain ⟨value, hvalue, hidentity⟩ := Option.bind_eq_some_iff.mp hread
      have hsome : (value.identity?).isSome := by rw [hidentity, Option.isSome_some]
      obtain ⟨key, hkey, hsame⟩ :=
        hloads.all value ((hvalues value).mpr ⟨⟨record, hrecord, name, hname, hvalue⟩, hsome⟩)
      exact ⟨key, hkey, hsame.trans hidentity⟩
    · obtain ⟨value, hmem, hsame⟩ := hloads.only key hkey List.not_mem_nil
      obtain ⟨⟨record, hrecord, name, hname, hvalue⟩, hsome⟩ := (hvalues value).mp hmem
      obtain ⟨identity, hidentity⟩ := Option.isSome_iff_exists.mp hsome
      refine ⟨identity, ⟨record, hrecord, name, hname, ?_⟩, hsame.trans hidentity⟩
      rw [hvalue, Option.bind_some, hidentity]
  case incomplete =>
    intro hincomplete
    cases hdecode : Bolt.decode s.returns table with
    | ok result => exact absurd (Bolt.exists_decode_iff.mp ⟨result, hdecode⟩) hincomplete
    | error err =>
      obtain ⟨record, hrecord, name, hname, hmissing, rfl⟩ := Bolt.decode_eq_error hdecode
      rw [hdecode] at hexecute
      refine ⟨record, hrecord, name, hname, hmissing, ?_, ?_⟩ <;> rw [query, hexecute] <;> rfl
  case handwritten =>
    rintro text params rfl
    rw [Statement.returns_handwritten, Bolt.decode_nil] at hexecute
    have hnothing : (table.records.map fun _ => (Dict.empty : Row)).flatMap entitiesOf = [] := by
      rw [List.flatMap_eq_nil_iff]
      rintro row hrow
      obtain ⟨-, -, rfl⟩ := List.mem_map.mp hrow
      rfl
    rw [query_of_execute hexecute (congrArg (Library.loadAll _ m []) hnothing)]
    exact ⟨rfl, rfl⟩

/-- A node, a relationship from it and the node at the other end, in one record. -/
def neighbours : Bolt.Table :=
  ⟨["n", "r", "x"], [[.node 1 [] [], .relationship 4 "KNOWS" 1 2 [], .node 2 [] []]]⟩

/-- A mapper whose connection decodes one answer. -/
def answered (table : Bolt.Table) : Mapper Unit :=
  .new {} { answers := [Bolt.execute fun _ => .ok table] } ()

/-- A statement that returns three variables and tracks two of them loads what is in these. -/
theorem query_loads_tracked_neighbours :
    let s : Statement := ⟨"MATCH (n)-[r]->(x) RETURN n, r, x", .empty, ["n", "r"]⟩
    let queried := (answered neighbours).query .epoch s
    neighbours.Complete s.returns ∧ neighbours.Suited s.returns (answered neighbours).catalog ∧
      (answered neighbours).QueryLoads .epoch s neighbours ∧
      ∃ result keys, queried.1 = .ok (result, keys) ∧
        keys.map queried.2.store.identityOf? = [some (.node, 1), some (.relationship, 4)] := by
  refine ⟨?_, ?_, query_loads_tracked .epoch rfl rfl, _, _, rfl, rfl⟩
  · rw [Bolt.Table.Complete]
    decide
  · rw [Bolt.Table.Suited]
    decide

/-- A hand-written query that is answered with a node: the row does not have the column, and no key
stands for the node. -/
theorem query_omits_untracked :
    let s : Statement := .handwritten "MATCH (n) RETURN n" []
    let table : Bolt.Table := ⟨["n"], [[.node 1 [] []]]⟩
    table.Holds table.fields (.node, 1) ∧
      ∃ result, Bolt.execute (fun _ => .ok table) s = .ok result ∧
        ¬ table.Reads table.fields result.rows ∧
        ((answered table).query .epoch s).1 = .ok (result, []) := by
  refine ⟨⟨_, List.mem_singleton_self _, "n", List.mem_singleton_self _, rfl⟩, ⟨[.empty]⟩, rfl, ?_,
    rfl⟩
  rintro (_ | ⟨hrow, -⟩)
  exact nomatch hrow "n"

end Mapper

end GraphMapping
