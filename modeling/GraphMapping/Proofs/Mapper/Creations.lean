import GraphMapping.Proofs.Mapper.Actions
import GraphMapping.Proofs.Mapper.Settlement

/-!
# What a flush creates

Several pending operations may mention one entity that has no id yet: the save of the entity itself,
and saves of relationships that have it as an end. The first statement that mentions it creates it,
and all later ones must match it. They do when the connection answers: with the id that came back,
the entity is no longer new.

So two statements that create the same entity have a delete of it between them. This holds whatever
the operations and the store are. Only the answers matter: an answer that leaves a returned variable
out gives the entity no id, and then it is created again.

## Main definitions

* `Execution.created`: the patterns that a statement creates.
* `Execution.Creates`: a statement creates an entity.
* `Mapper.CreatesOnce`: no entity is created twice.

## Main results

* `Mapper.send_creates_once`: a flush whose statements are answered creates no entity twice.
-/

namespace GraphMapping

variable {σ : Type}

theorem Pattern.Spells.mem_names {p : Pattern} {name : String} (h : p.Spells name) :
    name ∈ p.names := by
  cases p with
  | node n => exact List.mem_singleton.mpr h.1.symm
  | betweenAny relationship => exact List.mem_singleton.mpr h.symm
  | path start relationship finish =>
    rcases h with rfl | ⟨n, rfl | rfl, rfl, -⟩ <;> simp [names]

/-! ### Created entities -/

namespace Execution

variable (m : Moment) (x : Execution)

/-- The patterns that the statement creates. A delete creates nothing. -/
def created : List Pattern :=
  match x.op.kind with
  | .save => (x.draft m).clauses.created
  | .delete _ => []

/-- The statement creates the entity: it writes the entity, which has no id, and a pattern that it
creates has the entity's variable. -/
structure Creates (key : EntityKey) : Prop where
  targets : x.op.Targets x.store key
  new : x.store.idOf? key = none
  created : ∃ name, (x.composed m).store.nameOf? key = some name ∧
    ∃ p ∈ x.created m, name ∈ p.names

variable {m x}

/-- A save executes the statement of its draft, and what its created patterns spell out is created
by it. -/
theorem saved_of_outcome (hkind : x.op.kind = .save)
    (houtcome : (x.composed m).outcome = .ok (some x.statement)) :
    x.statement = (x.draft m).clauses.toStatement ∧
      ∀ p ∈ x.created m, ∀ name, p.Spells name →
        ∃ key, (x.composed m).store.nameOf? key = some name ∧ x.Creates m key := by
  have hcheck := accepted_of_composeOperation houtcome hkind
  have hsave : x.composed m =
      ⟨.ok (some (x.draft m).clauses.toStatement), (x.draft m).store, (x.draft m).names⟩ :=
    composeOperation_of_save hkind hcheck
  have hpatterns : x.created m = (x.draft m).clauses.created := by rw [created, hkind]
  constructor
  · rw [hsave] at houtcome
    exact (Option.some.inj (Except.ok.inj houtcome)).symm
  · intro p hp name hspells
    obtain ⟨key, e, hmentioned, he, hid, hname⟩ :=
      ((saved_draft m x.names hcheck).created p (hpatterns ▸ hp) name hspells).resolve_left
        List.not_mem_nil
    have hbound : (x.composed m).store.nameOf? key = some name := hsave ▸ hname
    refine ⟨key, hbound, ⟨hkind, Batch.mem_mentioned.mp hmentioned⟩, ?_,
      ⟨name, hbound, p, hp, hspells.mem_names⟩⟩
    rw [Store.idOf?, he]
    exact hid

/-- A delete executes the statement of what it has collected. -/
theorem deleted_of_outcome (hkind : x.op.kind ≠ .save)
    (houtcome : (x.composed m).outcome = .ok (some x.statement)) :
    ∃ deletion : Deletion, deletion.toStatement? = some x.statement := by
  rw [composed, composeOperation] at houtcome
  cases hop : x.op.kind with
  | save => exact absurd hop hkind
  | delete detach =>
    simp only [hop, composeDelete] at houtcome
    cases hcollect : (collectDeletion x.store x.names {} [x.op.key]).outcome with
    | error err => simp [hcollect, Except.map] at houtcome
    | ok deletion =>
      rw [hcollect] at houtcome
      exact ⟨deletion, Except.ok.inj houtcome⟩

end Execution

/-! ### Along a flush -/

section Flush

variable {hooks : Hooks σ} {m : Moment} {st st' : FlushState σ} {ops : List Operation}
  {op : Operation} {key : EntityKey} {x y : Execution} {before between after : List Execution}

/-- An execution among those of several operations is that of the first one, which the others
follow if it is carried out, or it is among those of the others. -/
theorem executions_cons_cases (h : executions hooks m (op :: ops) st = before ++ y :: after) :
    (before = [] ∧ execution? hooks m op st = some y ∧ (after = [] ∨
      ∃ done st₁, runOperation hooks m op st = (.ok done, st₁) ∧
        executions hooks m ops st₁ = after)) ∨
    ∃ done st₁ before', runOperation hooks m op st = (.ok done, st₁) ∧
      before = (execution? hooks m op st).toList ++ before' ∧
      executions hooks m ops st₁ = before' ++ y :: after := by
  obtain ⟨rest, heq, hrest⟩ : ∃ rest,
      executions hooks m (op :: ops) st = (execution? hooks m op st).toList ++ rest ∧
        (rest = [] ∨ ∃ done st₁, runOperation hooks m op st = (.ok done, st₁) ∧
          executions hooks m ops st₁ = rest) := by
    rw [executions]
    rcases hrun : runOperation hooks m op st with ⟨err | done, st₁⟩
    · exact ⟨[], rfl, .inl rfl⟩
    · exact ⟨_, rfl, .inr ⟨done, st₁, rfl, rfl⟩⟩
  rw [heq] at h
  have hlater : ∀ before', rest = before' ++ y :: after → ∃ done st₁,
      runOperation hooks m op st = (.ok done, st₁) ∧
        executions hooks m ops st₁ = before' ++ y :: after := by
    rintro before' rfl
    exact hrest.resolve_left (by simp)
  cases hfirst : execution? hooks m op st with
  | none =>
    rw [hfirst] at h
    obtain ⟨done, st₁, hrun, hsplit⟩ := hlater before h
    exact .inr ⟨done, st₁, before, hrun, rfl, hsplit⟩
  | some x =>
    rw [hfirst] at h
    rcases List.cons_eq_append_iff.mp h with ⟨rfl, hcons⟩ | ⟨before', rfl, hsplit⟩
    · obtain ⟨rfl, rfl⟩ := List.cons.inj hcons
      exact .inl ⟨rfl, rfl, hrest⟩
    · obtain ⟨done, st₁, hrun, hsplit⟩ := hlater before' hsplit
      exact .inr ⟨done, st₁, before', hrun, rfl, hsplit⟩

section Hookless

variable (hhooks : hooks.size = 0)

include hhooks

/-- What is executed is what was composed, from the store and the names that the execution has kept.
So a statement is not looked at itself, but the way it was made. -/
theorem outcome_of_mem_executions (hx : x ∈ executions hooks m ops st) :
    (x.composed m).outcome = .ok (some x.statement) := by
  obtain ⟨before, after, heq⟩ := List.append_of_mem hx
  clear hx
  induction ops generalizing st before with
  | nil => simp [executions] at heq
  | cons op rest ih =>
    rcases executions_cons_cases heq with ⟨-, hfirst, -⟩ | ⟨-, st₁, before', -, -, hrest⟩
    · exact (execution?_of_size hhooks hfirst).2.2.2
    · exact ih before' hrest

/-- An entity that has an id is created only after it has been deleted. -/
theorem exists_deletes_of_creates {id : Int64} (hid : st.store.idOf? key = some id)
    (h : executions hooks m ops st = before ++ y :: after) (hy : y.Creates m key) :
    ∃ z ∈ before, z.op.Deletes key := by
  induction ops generalizing st before id with
  | nil => simp [executions] at h
  | cons op rest ih =>
    rcases executions_cons_cases h with ⟨rfl, hfirst, -⟩ |
      ⟨⟨statement, result⟩, st₁, before', hrun, rfl, hrest⟩
    · obtain ⟨-, hstore, -⟩ := execution?_of_size hhooks hfirst
      have hnew := hy.new
      rw [hstore, hid] at hnew
      exact absurd hnew (Option.some_ne_none id)
    · obtain ⟨houtcome, hsettles⟩ := runOperation_settles hhooks hrun
      by_cases hdeletes : op.Deletes key
      · -- the delete needs a statement, because the entity has an id
        cases hfirst : execution? hooks m op st with
        | none =>
          obtain rfl : none = statement := by simpa [hfirst] using execution?_of_ok hrun
          rw [← hdeletes.1, ((unneeded_iff houtcome).mp rfl).2] at hid
          exact absurd hid.symm (Option.some_ne_none id)
        | some z =>
          obtain ⟨hop, -⟩ := execution?_of_size hhooks hfirst
          exact ⟨z, by simp, hop ▸ hdeletes⟩
      · obtain ⟨z, hz, hdeleted⟩ := ih (hsettles.idOf?_kept hdeletes hid) hrest
        exact ⟨z, List.mem_append_right _ hz, hdeleted⟩

/-- Between two statements that create the same entity it is deleted, when all of them are
answered. -/
theorem exists_deletes_between (hanswered : ∀ c ∈ carried hooks m ops st, c.Answered)
    (h : executions hooks m ops st = before ++ x :: (between ++ y :: after))
    (hx : x.Creates m key) (hy : y.Creates m key) : ∃ z ∈ between, z.op.Deletes key := by
  induction ops generalizing st before with
  | nil => simp [executions] at h
  | cons op rest ih =>
    rcases executions_cons_cases h with ⟨rfl, hfirst, hafter⟩ |
      ⟨⟨statement, result⟩, st₁, before', hrun, rfl, hrest⟩
    · obtain ⟨⟨statement, result⟩, st₁, hrun, hrest⟩ := hafter.resolve_left (by simp)
      obtain ⟨hop, hstore, hnames, -⟩ := execution?_of_size hhooks hfirst
      obtain ⟨houtcome, hsettles⟩ := runOperation_settles hhooks hrun
      rw [carried, hrun] at hanswered
      obtain ⟨name, hname, hbinds⟩ := (hanswered _ (List.mem_cons_self ..)).binds (m := m) houtcome
        (hop ▸ hstore ▸ hx.targets)
      have hsome := hsettles.isSome_idOf? (hop ▸ hstore ▸ hx.targets) hname hbinds
      obtain ⟨id, hid⟩ := Option.isSome_iff_exists.mp hsome
      exact exists_deletes_of_creates hhooks hid hrest hy
    · rw [carried, hrun] at hanswered
      exact ih (List.forall_mem_cons.mp hanswered).2 hrest

end Hookless

end Flush

namespace Mapper

/-- Sending creates no entity twice. -/
structure CreatesOnce (mapper : Mapper σ) (m : Moment) : Prop where
  /-- The executions are the statements of the journal. -/
  executed : mapper.executed m = (mapper.executions m).map (·.statement)
  /-- A save executes what its draft says. -/
  saved : ∀ x ∈ mapper.executions m, x.op.kind = .save →
    x.statement = (x.draft m).clauses.toStatement
  /-- A delete executes nothing but what matches its targets and deletes them. -/
  deleted : ∀ x ∈ mapper.executions m, x.op.kind ≠ .save →
    ∃ deletion : Deletion, deletion.toStatement? = some x.statement
  /-- What a created pattern spells out is an entity that the statement creates. -/
  spelled : ∀ x ∈ mapper.executions m, ∀ p ∈ x.created m, ∀ name, p.Spells name →
    ∃ key, (x.composed m).store.nameOf? key = some name ∧ x.Creates m key
  /-- Only this entity has the variable, if the pending work has handed out distinct ones. -/
  distinct : mapper.store.NamedBy mapper.work.names → ∀ x ∈ mapper.executions m,
    ∀ key key' name, (x.composed m).store.nameOf? key = some name →
      (x.composed m).store.nameOf? key' = some name → key = key'
  /-- Between two statements that create the same entity it is deleted. -/
  once : ∀ before x between y after,
    mapper.executions m = before ++ x :: (between ++ y :: after) →
    ∀ key, x.Creates m key → y.Creates m key → ∃ z ∈ between, z.op.Deletes key

variable {mapper : Mapper σ} {m : Moment}

/-- **A flush creates no entity twice.** Without hooks, and whatever operations are pending in
whatever store: when every statement that is executed is answered with a node or relationship for
each variable that it returns, no entity is created by two statements, unless it is deleted by a
statement between them. This is so however many pending relationships have the entity as an end,
and whether or not it has a pending save of its own. -/
theorem send_creates_once (hhooks : mapper.hooks.size = 0)
    (hanswered : ∀ c ∈ mapper.carried m, c.Answered) : mapper.CreatesOnce m := by
  have hrestrained := Hooks.restrained_of_size hhooks
  have houtcome : ∀ x ∈ mapper.executions m, (x.composed m).outcome = .ok (some x.statement) :=
    fun x hx => outcome_of_mem_executions hhooks hx
  constructor
  case executed => exact executed_eq hrestrained m
  case saved => exact fun x hx hkind => (x.saved_of_outcome hkind (houtcome x hx)).1
  case deleted => exact fun x hx hkind => x.deleted_of_outcome hkind (houtcome x hx)
  case spelled =>
    intro x hx p hp name hspells
    cases hkind : x.op.kind with
    | save => exact (x.saved_of_outcome hkind (houtcome x hx)).2 p hp name hspells
    | delete detach => simp [Execution.created, hkind] at hp
  case distinct =>
    intro hnamed x hx
    have hbefore : mapper.beforeFlush.store.NamedBy mapper.beforeFlush.names := hnamed
    have hchain := (chain_executions (m := m) hrestrained hbefore mapper.work.operations).1
    exact (hchain.sound x hx).named_composed.distinct
  case once =>
    intro before x between y after heq key hx hy
    exact exists_deletes_between hhooks hanswered heq hx hy

/-- A node and two relationships from it to bare ids, all of them new. Both relationships are saved
and the node too, which is deleted at last and saved again. -/
def acquaintance : Mapper Unit where
  settings := {}
  catalog := .empty true
  store :=
    ⟨[.node "Node" ["Node"] (.empty true),
      .relationship "Knows" ["KNOWS"] (some (.entity ⟨0⟩)) (some (.id 5)) (.empty true),
      .relationship "Knows" ["KNOWS"] (some (.entity ⟨0⟩)) (some (.id 6)) (.empty true)]⟩
  hooks := .empty
  work := { operations := [⟨⟨1⟩, .save, .scheduled, []⟩, ⟨⟨2⟩, .save, .scheduled, []⟩,
    ⟨⟨0⟩, .save, .scheduled, []⟩, ⟨⟨0⟩, .delete true, .scheduled, []⟩,
    ⟨⟨0⟩, .save, .scheduled, []⟩] }
  connection := ⟨List.replicate 5 fun s =>
    .ok ⟨[.ofList (s.returns.map (·, .node ⟨8, [], .empty⟩))]⟩, []⟩
  app := ()

/-- The first relationship creates the node. The second one and the save match it, and after the
delete it is created again. -/
theorem send_creates_once_acquaintance : acquaintance.hooks.size = 0 ∧
    (∀ c ∈ acquaintance.carried .epoch, c.Answered) ∧
    ((acquaintance.executions .epoch).map fun x => (x.created .epoch).map Pattern.write) =
      [["(n0:Node)-[r0:KNOWS]->(n1)"], ["(n2)-[r1:KNOWS]->(n3)"], [], [], ["(n6:Node)"]] ∧
    acquaintance.CreatesOnce .epoch := by
  have hanswered : ∀ c ∈ acquaintance.carried .epoch, c.Answered := by decide +kernel
  exact ⟨rfl, hanswered, by decide +kernel, send_creates_once rfl hanswered⟩

end Mapper

end GraphMapping
