import GraphMapping.Proofs.Entity.Settled
import GraphMapping.Proofs.Work.Executions
import GraphMapping.Proofs.Work.Settling

/-!
# The course of a flush

The operations that a flush carries out are listed with what they began with and what came back for
them. Without hooks the list tells the whole course of the store: every operation settles what it
touches and leaves the rest alone. `Course` says just this, and nothing of connections, journals and
the application's own state, so that what becomes of an entity is shown by induction on it.

Type names, labels and ends stay what they are from beginning to end. Therefore what an operation
touches can be read off the first store.

## Main definitions

* `Carried`, `carried`: the operations that are carried out.
* `Carried.Binds`, `Carried.Answered`: what the connection returned.
* `Course`: the course of the store.

## Main results

* `course_of_ok`, `exists_of_error`: a flush has a course, whether it succeeds or fails.
* `Course.nature`: what never changes.
* `Course.untouched`: an entity that is not touched.
* `Course.settled`: an entity that is written.
* `Course.idOf?_kept`, `Course.idOf?_deleted`, `Course.isSome_idOf?`: what becomes of ids.
-/

namespace GraphMapping

/-! ### Operations that are carried out -/

/-- An operation that was carried out: the store and the names it began with, its statement, if it
needed one, and the result. -/
structure Carried where
  op : Operation
  store : Store
  names : Names
  statement : Option Statement
  result : QueryResult

/-- The operations that are carried out, in order, up to the first that fails. -/
def carried {σ : Type} (hooks : Hooks σ) (m : Moment) :
    List Operation → FlushState σ → List Carried
  | [], _ => []
  | op :: rest, st =>
    match runOperation hooks m op st with
    | (.error _, _) => []
    | (.ok (statement, result), st') =>
      ⟨op, st.store, st.names, statement, result⟩ :: carried hooks m rest st'

/-- The id of a stored entity. -/
def Store.idOf? (store : Store) (key : EntityKey) : Option Int64 := (store.get? key).bind (·.id)

/-- Only the delete of an entity that has no id needs no statement. -/
theorem unneeded_iff {m : Moment} {store : Store} {names : Names} {op : Operation}
    {statement : Option Statement}
    (houtcome : (composeOperation m store names op).outcome = .ok statement) :
    statement = none ↔ op.kind ≠ .save ∧ store.idOf? op.key = none := by
  cases hop : op.kind with
  | save =>
    rw [composeOperation_of_save hop (accepted_of_composeOperation houtcome hop)] at houtcome
    simp [← Except.ok.inj houtcome]
  | delete detach =>
    simp only [composeOperation, hop, composeDelete, collectDeletion] at houtcome
    cases he : store.get? op.key with
    | none => simp [he, Except.map] at houtcome
    | some e =>
      obtain ⟨name, names', hdefine⟩ := names.exists_define e
      simp only [he, hdefine] at houtcome
      rw [Store.idOf?, he, Option.bind_some]
      cases hid : e.id with
      | none =>
        have hbound : (e.bindVariable name).id = none := hid
        simp only [hbound, Except.map, Deletion.toStatement?, if_pos, Except.ok.injEq] at houtcome
        simp [← houtcome]
      | some id =>
        have hbound : (e.bindVariable name).id = some id := hid
        simp only [hbound, Except.map, Deletion.toStatement?, Deletion.add, List.nil_append,
          List.cons_ne_nil, if_false, Except.ok.injEq] at houtcome
        simp [← houtcome]

/-- What an entity is, whatever its data: its type name, its labels and, of a relationship, its
ends. -/
def Entity.nature (e : Entity) : String × List String × Shape := (e.typeName, e.labels, e.shape)

namespace Carried

variable (m : Moment) (c : Carried)

/-- What composing the statement led to. -/
def composed : Composed (Option Statement) := composeOperation m c.store c.names c.op

/-- The result binds the variable which the entity has in the statement to a node or
relationship. -/
def Binds (key : EntityKey) : Prop :=
  ∃ name, (c.composed m).store.nameOf? key = some name ∧
    ((c.result.first? name).bind GraphValue.entityParts?).isSome

/-- The result binds every variable that the statement returns to a node or relationship. -/
def Answered : Prop :=
  ∀ s, c.statement = some s → ∀ name ∈ s.returns,
    ((c.result.first? name).bind GraphValue.entityParts?).isSome

instance : Decidable c.Answered :=
  decidable_of_iff (∀ name ∈ c.statement.elim [] Statement.returns,
    ((c.result.first? name).bind GraphValue.entityParts?).isSome) <| by
    rw [Answered]
    cases c.statement <;> simp

variable {m c}

/-- An answered save binds the variables of its targets. This is what is asked of a backend here:
that a statement which returns a variable has an entity for it in the answer. -/
theorem Answered.binds (h : c.Answered) (houtcome : (c.composed m).outcome = .ok c.statement)
    {key : EntityKey} (htargets : c.op.Targets c.store key) : c.Binds m key := by
  obtain ⟨s, name, hs, hname, hreturned⟩ := exists_returned_of_targets houtcome htargets
  exact ⟨name, hname, h s hs name hreturned⟩

end Carried

/-! ### The course of the store -/

/-- The course of a store in a flush: one operation after the other settles what it touches. -/
inductive Course (m : Moment) : Store → List Carried → Store → Prop
  | done (store : Store) : Course m store [] store
  | step {c : Carried} {cs : List Carried} {store' store'' : Store}
    (houtcome : (c.composed m).outcome = .ok c.statement)
    (hsettles : c.op.Settles m c.store c.names c.result store') (hrest : Course m store' cs store'') :
    Course m c.store (c :: cs) store''

section Flush

variable {σ : Type} {hooks : Hooks σ} {m : Moment} {st st' : FlushState σ} {ops : List Operation}
  {response response' : Response}

/-- The operations of a list are carried out after those in front of them. -/
theorem runOperations_append (ops ops' : List Operation) (response : Response)
    (st : FlushState σ) : runOperations hooks m (ops ++ ops') response st =
      match runOperations hooks m ops response st with
      | (.error err, st') => (.error err, st')
      | (.ok response', st') => runOperations hooks m ops' response' st' := by
  induction ops generalizing response st with
  | nil => rfl
  | cons op rest ih =>
    rw [List.cons_append, runOperations, runOperations]
    rcases runOperation hooks m op st with ⟨_ | ⟨statement, result⟩, st₁⟩
    · rfl
    · exact ih _ st₁

variable (hhooks : hooks.size = 0)

include hhooks

/-- When all operations are carried out, the store takes their course. -/
theorem course_of_ok (h : runOperations hooks m ops response st = (.ok response', st')) :
    (carried hooks m ops st).map (·.op) = ops ∧
      Course m st.store (carried hooks m ops st) st'.store := by
  induction ops generalizing response st with
  | nil =>
    obtain ⟨-, rfl⟩ := Prod.mk.inj h
    exact ⟨rfl, .done _⟩
  | cons op rest ih =>
    rw [runOperations] at h
    rw [carried]
    rcases hop : runOperation hooks m op st with ⟨_ | ⟨statement, result⟩, st₁⟩
    · simp [hop] at h
    · simp only [hop] at h
      obtain ⟨hops, hrest⟩ := ih h
      obtain ⟨houtcome, hsettles⟩ := runOperation_settles hhooks hop
      let c : Carried := ⟨op, st.store, st.names, statement, result⟩
      exact ⟨congrArg (op :: ·) hops, .step (c := c) houtcome hsettles hrest⟩

omit hhooks in
/-- When one fails, those in front of it have been carried out, and the failing one begins where
they have ended. So a failing flush is a successful one followed by one failing operation. -/
theorem exists_of_error {err : MapperError}
    (h : runOperations hooks m ops response st = (.error err, st')) :
    ∃ op rest st₁ response₁, ops = (carried hooks m ops st).map (·.op) ++ op :: rest ∧
      runOperations hooks m ((carried hooks m ops st).map (·.op)) response st =
        (.ok response₁, st₁) ∧
      runOperation hooks m op st₁ = (.error err, st') := by
  induction ops generalizing response st with
  | nil => exact nomatch h
  | cons op rest ih =>
    rw [runOperations] at h
    rw [carried]
    rcases hop : runOperation hooks m op st with ⟨err' | ⟨statement, result⟩, st₁⟩
    · simp only [hop] at h
      obtain ⟨herr, rfl⟩ := Prod.mk.inj h
      obtain rfl := Except.error.inj herr
      exact ⟨op, rest, st, response, rfl, rfl, hop⟩
    · simp only [hop] at h
      obtain ⟨failing, rest', st₂, response₂, hops, hrun, hfails⟩ := ih h
      refine ⟨failing, rest', st₂, response₂, ?_, ?_, hfails⟩
      · rw [List.map_cons, List.cons_append, ← hops]
      · simp only [List.map_cons, runOperations, hop]
        exact hrun

omit hhooks in
/-- Registering nothing is restraint enough. -/
theorem Hooks.restrained_of_size (h : hooks.size = 0) : hooks.Restrained where
  hook := by simp [hooks_eq_nil h]
  handler := by simp [handlers_eq_nil h]

/-- What an operation executes is composed from the store that it begins with. -/
theorem execution?_of_size {op : Operation} {x : Execution}
    (h : execution? hooks m op st = some x) : x.op = op ∧ x.store = st.store ∧
      x.names = st.names ∧ (x.composed m).outcome = .ok (some x.statement) := by
  obtain ⟨obs, st₁, -, hbefore, hop, hstore, hnames, houtcome⟩ := execution?_eq_some h
  have hsteps := beforeSteps_store (m := m) hhooks obs st
  rw [hbefore] at hsteps
  refine ⟨hop, hstore.trans hsteps.1, hnames.trans hsteps.2, ?_⟩
  rwa [Execution.composed, hop, hstore, hnames]

end Flush

/-! ### What becomes of an entity -/

section Step

variable {m : Moment} {op : Operation} {store store' : Store} {names : Names}
  {result : QueryResult} {key : EntityKey} {e : Entity}

theorem OperationKind.nature_settle (kind : OperationKind) (e : Entity) :
    (kind.settle m result e).nature = e.nature := by
  cases kind with
  | delete detach => rfl
  | save =>
    rw [settle, Entity.refresh_eq]
    split <;> rfl

namespace Operation.Settles

/-- A touched entity is settled under the variable that it got. -/
theorem get?_touched (h : op.Settles m store names result store') (htouches : op.Touches store key)
    (he : store.get? key = some e) :
    store'.get? key = some (op.kind.settle m result
      { e with queryVariable :=
          (composeOperation m store names op).store.nameOf? key }).releaseVariable := by
  obtain ⟨e', he', hsame⟩ := (composeOperation_hands_out m store names op).get? he
  have hbound : { e with queryVariable := e'.queryVariable } = e' :=
    Entity.eq_of_releaseVariable hsame.symm rfl
  rw [h.touched key htouches, Store.nameOf?, he', Option.bind_some, hbound, Option.map_some]

/-- An entity that is not touched has got a variable at most. -/
theorem get?_untouched (h : op.Settles m store names result store')
    (htouches : ¬ op.Touches store key) :
    (store'.get? key).map Entity.releaseVariable =
      (store.get? key).map Entity.releaseVariable := by
  rw [h.untouched key htouches, ← Store.get?_releaseVariables, ← Store.get?_releaseVariables,
    (composeOperation_hands_out m store names op).same]

theorem get?_none (h : op.Settles m store names result store') (he : store.get? key = none) :
    store'.get? key = none := by
  have hcomposed : (composeOperation m store names op).store.get? key = none := by
    have hread := congrArg (·.get? key) (composeOperation_hands_out m store names op).same
    simpa [Store.get?_releaseVariables, he] using hread
  by_cases htouches : op.Touches store key
  · rw [h.touched key htouches, hcomposed, Option.map_none]
  · rw [h.untouched key htouches, hcomposed]

theorem nature (h : op.Settles m store names result store') (key : EntityKey) :
    (store'.get? key).map Entity.nature = (store.get? key).map Entity.nature := by
  cases he : store.get? key with
  | none => rw [h.get?_none he]
  | some e =>
    by_cases htouches : op.Touches store key
    · rw [h.get?_touched htouches he]
      exact congrArg some (OperationKind.nature_settle ..)
    · have hsame := congrArg (Option.map Entity.nature) (h.get?_untouched htouches)
      simpa [Function.comp_def, Entity.nature, Entity.releaseVariable, he] using hsame

/-- What is settled stays settled, and what is written gets settled. -/
theorem settled (h : op.Settles m store names result store') (he : store.get? key = some e)
    (hsettled : e.Settled ∨ op.Targets store key) :
    ∃ e', store'.get? key = some e' ∧ e'.Settled := by
  by_cases htouches : op.Touches store key
  · refine ⟨_, h.get?_touched htouches he, Entity.Settled.releaseVariable ?_⟩
    cases hkind : op.kind with
    | save => exact Entity.settled_refresh ..
    | delete detach =>
      have hsettled := hsettled.resolve_right fun htargets => nomatch hkind.symm.trans htargets.1
      exact ⟨hsettled.1, hsettled.2⟩
  · have hsettled := hsettled.resolve_right fun htargets => htouches htargets.touches
    have hsame := h.get?_untouched htouches
    rw [he, Option.map_some] at hsame
    obtain ⟨e', he', hdata⟩ := Option.map_eq_some_iff.mp hsame
    refine ⟨e', he', ?_⟩
    have hreleased : e'.releaseVariable.Settled := hdata ▸ hsettled.releaseVariable
    exact ⟨hreleased.1, hreleased.2⟩

/-- An untouched entity keeps its id, or that it has none. -/
theorem idOf?_untouched (h : op.Settles m store names result store')
    (htouches : ¬ op.Touches store key) : store'.idOf? key = store.idOf? key := by
  have hsame := congrArg (Option.bind · (fun e => e.id)) (h.get?_untouched htouches)
  simpa [Store.idOf?, Option.bind_map, Function.comp_def, Entity.releaseVariable] using hsame

theorem idOf?_kept (h : op.Settles m store names result store') (hdeletes : ¬ op.Deletes key)
    {id : Int64} (hid : store.idOf? key = some id) : store'.idOf? key = some id := by
  by_cases htouches : op.Touches store key
  · obtain ⟨e, he, hid⟩ := Option.bind_eq_some_iff.mp hid
    have hkind : op.kind = .save := by
      by_contra hkind
      exact hdeletes (htouches.deletes hkind)
    rw [Store.idOf?, h.get?_touched htouches he, hkind]
    exact Entity.id_refresh hid
  · rwa [h.idOf?_untouched htouches]

theorem idOf?_deleted (h : op.Settles m store names result store') (hdeletes : op.Deletes key) :
    store'.idOf? key = none := by
  have htouches : op.Touches store key := .inl hdeletes.1.symm
  cases he : store.get? key with
  | none => rw [Store.idOf?, h.get?_none he, Option.bind_none]
  | some e =>
    rw [Store.idOf?, h.get?_touched htouches he]
    cases hkind : op.kind with
    | save => exact absurd hkind hdeletes.2
    | delete detach => rfl

/-- An entity that came back from its save has an id. -/
theorem isSome_idOf? (h : op.Settles m store names result store') (htargets : op.Targets store key)
    {name : String}
    (hname : (composeOperation m store names op).store.nameOf? key = some name)
    (hbinds : ((result.first? name).bind GraphValue.entityParts?).isSome) :
    (store'.idOf? key).isSome := by
  cases he : store.get? key with
  | none =>
    have hread := congrArg (·.get? key) (composeOperation_hands_out m store names op).same
    obtain ⟨e', he', -⟩ := Option.bind_eq_some_iff.mp hname
    simp [Store.get?_releaseVariables, he, he'] at hread
  | some e =>
    rw [Store.idOf?, h.get?_touched htargets.touches he, htargets.1, hname]
    exact Entity.isSome_id_refresh hbinds

end Operation.Settles

end Step

namespace Course

variable {m : Moment} {store store' store'' : Store} {cs cs' : List Carried} {key : EntityKey}

theorem append_iff : Course m store (cs ++ cs') store'' ↔
    ∃ store', Course m store cs store' ∧ Course m store' cs' store'' := by
  constructor
  · intro h
    induction cs generalizing store with
    | nil => exact ⟨store, .done store, h⟩
    | cons c cs ih =>
      cases h with
      | step houtcome hsettles hrest =>
        obtain ⟨store', hfirst, hsecond⟩ := ih hrest
        exact ⟨store', .step houtcome hsettles hfirst, hsecond⟩
  · rintro ⟨store', hfirst, hsecond⟩
    induction hfirst with
    | done => exact hsecond
    | step houtcome hsettles hrest ih => exact .step houtcome hsettles (ih hsecond)

theorem nature (h : Course m store cs store') (key : EntityKey) :
    (store'.get? key).map Entity.nature = (store.get? key).map Entity.nature := by
  induction h with
  | done => rfl
  | step houtcome hsettles hrest ih => exact ih.trans (hsettles.nature key)

theorem shape (h : Course m store cs store') (key : EntityKey) :
    (store'.get? key).map Entity.shape = (store.get? key).map Entity.shape := by
  have hnature := congrArg (Option.map fun nature => nature.2.2) (h.nature key)
  simpa [Function.comp_def, Entity.nature] using hnature

/-- What an operation touches can be read off the first store. Ids and data change along the way,
and the ends of relationships do not. -/
theorem touches_iff (h : Course m store cs store') {op : Operation} :
    op.Touches store' key ↔ op.Touches store key := Operation.touches_congr h.shape

theorem targets_iff (h : Course m store cs store') {op : Operation} :
    op.Targets store' key ↔ op.Targets store key := Operation.targets_congr h.shape

/-- What is written is stored, because its statement was composed. -/
theorem exists_of_targets (h : Course m store cs store') {c : Carried} (hc : c ∈ cs)
    (htargets : c.op.Targets store key) : ∃ e, store.get? key = some e := by
  induction h with
  | done => exact absurd hc List.not_mem_nil
  | @step first cs store' store'' houtcome hsettles hrest ih =>
    have hone : Course m first.store [first] store' := .step houtcome hsettles (.done _)
    rcases List.mem_cons.mp hc with rfl | hlater
    · obtain ⟨_, _, -, hname, -⟩ := exists_returned_of_targets houtcome htargets
      obtain ⟨e, he, -⟩ := Option.bind_eq_some_iff.mp hname
      obtain ⟨e₀, he₀, -⟩ := Endpoint.exists_of_same
        (composeOperation_hands_out m c.store c.names c.op).same he
      exact ⟨e₀, he₀⟩
    · obtain ⟨e, he⟩ := ih hlater (hone.targets_iff.mpr htargets)
      have hshape := hone.shape key
      rw [he, Option.map_some] at hshape
      obtain ⟨e₀, he₀, -⟩ := Option.map_eq_some_iff.mp hshape.symm
      exact ⟨e₀, he₀⟩

/-- An entity that is not touched is left alone, its variable apart. -/
theorem untouched (h : Course m store cs store')
    (hnot : ∀ c ∈ cs, ¬ c.op.Touches store key) :
    (store'.get? key).map Entity.releaseVariable =
      (store.get? key).map Entity.releaseVariable := by
  induction h with
  | done => rfl
  | @step c cs store' store'' houtcome hsettles hrest ih =>
    have hone : Course m c.store [c] store' := .step houtcome hsettles (.done _)
    obtain ⟨hfirst, hlater⟩ := List.forall_mem_cons.mp hnot
    refine Eq.trans (ih fun c' hc' htouches => ?_) (hsettles.get?_untouched hfirst)
    exact hlater c' hc' (hone.touches_iff.mp htouches)

/-- What is settled stays settled, and what is written gets settled. -/
theorem settled (h : Course m store cs store') {e : Entity} (he : store.get? key = some e)
    (hsettled : e.Settled ∨ ∃ c ∈ cs, c.op.Targets store key) :
    ∃ e', store'.get? key = some e' ∧ e'.Settled := by
  induction h generalizing e with
  | done => exact ⟨e, he, hsettled.resolve_right fun ⟨c, hc, _⟩ => List.not_mem_nil hc⟩
  | @step c cs store' store'' houtcome hsettles hrest ih =>
    have hone : Course m c.store [c] store' := .step houtcome hsettles (.done _)
    by_cases hfirst : e.Settled ∨ c.op.Targets c.store key
    · obtain ⟨e', he', hsettled'⟩ := hsettles.settled he hfirst
      exact ih he' (.inl hsettled')
    · obtain ⟨hnotSettled, hnotTarget⟩ := not_or.mp hfirst
      obtain ⟨c', hc', htargets⟩ := hsettled.resolve_left hnotSettled
      have hlater : c' ∈ cs := by
        rcases List.mem_cons.mp hc' with rfl | hlater
        · exact absurd htargets hnotTarget
        · exact hlater
      have hshape := hone.shape key
      rw [he, Option.map_some] at hshape
      obtain ⟨e', he', -⟩ := Option.map_eq_some_iff.mp hshape
      exact ih he' (.inr ⟨c', hlater, hone.targets_iff.mpr htargets⟩)

theorem idOf?_kept (h : Course m store cs store') (hnot : ∀ c ∈ cs, ¬ c.op.Deletes key)
    {id : Int64} (hid : store.idOf? key = some id) : store'.idOf? key = some id := by
  induction h with
  | done => exact hid
  | step houtcome hsettles hrest ih =>
    obtain ⟨hfirst, hlater⟩ := List.forall_mem_cons.mp hnot
    exact ih hlater (hsettles.idOf?_kept hfirst hid)

/-- An entity that is not touched keeps its id, or that it has none. -/
theorem idOf?_untouched (h : Course m store cs store')
    (hnot : ∀ c ∈ cs, ¬ c.op.Touches store key) : store'.idOf? key = store.idOf? key := by
  have hsame := congrArg (Option.bind · (fun e => e.id)) (h.untouched hnot)
  simpa [Store.idOf?, Option.bind_map, Function.comp_def, Entity.releaseVariable] using hsame

/-- An entity that is deleted, and not touched again, has no id. -/
theorem idOf?_deleted {before after : List Carried} {c : Carried}
    (h : Course m store (before ++ c :: after) store') (hdeletes : c.op.Deletes key)
    (hnot : ∀ c' ∈ after, ¬ c'.op.Touches store key) : store'.idOf? key = none := by
  obtain ⟨store₁, hbefore, hrest⟩ := append_iff.mp h
  cases hrest with
  | @step _ _ store₂ _ houtcome hsettles hafter =>
    have hone : Course m c.store [c] store₂ := .step houtcome hsettles (.done _)
    rw [hafter.idOf?_untouched fun c' hc' htouches => ?_, hsettles.idOf?_deleted hdeletes]
    exact hnot c' hc' (hbefore.touches_iff.mp (hone.touches_iff.mp htouches))

/-- An entity that came back from a save, and is not deleted again, has an id. -/
theorem isSome_idOf? {before after : List Carried} {c : Carried}
    (h : Course m store (before ++ c :: after) store') (htargets : c.op.Targets store key)
    (hbinds : c.Binds m key) (hnot : ∀ c' ∈ after, ¬ c'.op.Deletes key) :
    (store'.idOf? key).isSome := by
  obtain ⟨store₁, hbefore, hrest⟩ := append_iff.mp h
  cases hrest with
  | @step _ _ store₂ _ houtcome hsettles hafter =>
    obtain ⟨name, hname, hparts⟩ := hbinds
    have hsome := hsettles.isSome_idOf? (hbefore.targets_iff.mpr htargets) hname hparts
    obtain ⟨id, hid⟩ := Option.isSome_iff_exists.mp hsome
    rw [hafter.idOf?_kept hnot hid]
    rfl

end Course

end GraphMapping
