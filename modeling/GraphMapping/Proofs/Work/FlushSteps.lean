import GraphMapping.Proofs.Work.Targets
import GraphMapping.Work.Flush

/-!
# Steps of a flush

Without hooks a flush changes entities in two ways: composing hands out variables, and the steps
after a statement change ids and properties and take variables back. No step changes what the ends
of a relationship are. So the entities that an operation writes are the same from the beginning of a
flush on, and variables stay distinct until the end.

## Main definitions

* `Store.Fades`, `FlushState.Fades`: entities keep their shape, and variables are only taken back.
* `Executes`: a statement that carrying out operations executes, with the store it was composed to.

## Main results

* `eachObligation_rel`, `releaseTouched_rel`, `afterStep_rel`: a relation of states that elementary
  changes are in, longer steps are in.
* `runOperation_inv`: the steps of an operation that is carried out.
* `runOperation_ok`: what carrying out one operation does to the store.
* `mem_statements`: the response lists executed statements only.
* `Executes.targets`: the entities that an executed statement returns are written by an operation.
* `exists_executes`: every entity that an operation writes is returned by an executed statement.
-/

namespace GraphMapping

/-! ### Fading variables -/

/-- Entities keep their shape, and variables are only taken back. -/
structure Store.Fades (store store' : Store) : Prop where
  shape : ∀ key, (store'.get? key).map Entity.shape = (store.get? key).map Entity.shape
  fades : ∀ key name, store'.nameOf? key = some name → store.nameOf? key = some name

namespace Store.Fades

variable {store store' store'' : Store} {names : Names} {key : EntityKey}

theorem refl (store : Store) : store.Fades store := ⟨fun _ => rfl, fun _ _ h => h⟩

theorem trans (h : store.Fades store') (h' : store'.Fades store'') : store.Fades store'' :=
  ⟨fun key => (h'.shape key).trans (h.shape key),
    fun key name hname => h.fades key name (h'.fades key name hname)⟩

/-- A change of one entity that leaves its shape alone. -/
theorem modify {f : Entity → Entity} (hshape : ∀ e, (f e).shape = e.shape)
    (hname : ∀ e name, (f e).queryVariable = some name → e.queryVariable = some name)
    (store : Store) (key : EntityKey) : store.Fades (store.modify key f) := by
  constructor
  · intro other
    by_cases hother : other = key
    · rw [hother, Store.get?_modify_self, Option.map_map]
      congr 1
      exact funext hshape
    · rw [Store.get?_modify_of_ne store hother]
  · intro other name hother
    by_cases hne : other = key
    · subst hne
      cases he : store.get? other with
      | none => simp [Store.nameOf?, he] at hother
      | some e =>
        rw [Store.nameOf?_modify_self he] at hother
        exact (Store.nameOf?_of_get? he).trans (hname e name hother)
    · rwa [Store.nameOf?_modify_of_ne hne] at hother

theorem namedBy (h : store.Fades store') (hnamed : store.NamedBy names) : store'.NamedBy names where
  issued key name hname := hnamed.issued key name (h.fades key name hname)
  distinct key key' name hname hname' :=
    hnamed.distinct key key' name (h.fades key name hname) (h.fades key' name hname')

end Store.Fades

/-- In a flush, entities keep their shape, variables are only taken back, and no names are handed
out. -/
def FlushState.Fades {σ : Type} (st st' : FlushState σ) : Prop :=
  st.store.Fades st'.store ∧ st'.names = st.names

theorem FlushState.Fades.refl {σ : Type} (st : FlushState σ) : st.Fades st := ⟨.refl _, rfl⟩

theorem FlushState.Fades.trans {σ : Type} {st st' st'' : FlushState σ} (h : st.Fades st')
    (h' : st'.Fades st'') : st.Fades st'' :=
  ⟨h.1.trans h'.1, h'.2.trans h.2⟩

theorem Entity.endpointKeys_congr {e e' : Entity} (h : e.shape = e'.shape) :
    e.endpointKeys = e'.endpointKeys := by
  simp only [endpointKeys, endpoint?_congr h]

/-- What an operation writes depends on the shapes only. Shapes do not change in a flush, so it can
be asked at the beginning what will be written. -/
theorem Operation.targets_congr {op : Operation} {store store' : Store} {key : EntityKey}
    (h : ∀ key, (store'.get? key).map Entity.shape = (store.get? key).map Entity.shape) :
    op.Targets store' key ↔ op.Targets store key := by
  have himp : ∀ {a b : Store},
      (∀ key, (a.get? key).map Entity.shape = (b.get? key).map Entity.shape) →
        op.Targets a key → op.Targets b key := by
    rintro a b hab ⟨hkind, hkey⟩
    refine ⟨hkind, hkey.imp_right ?_⟩
    rintro ⟨e, he, hend⟩
    have hshape := hab op.key
    rw [he] at hshape
    obtain ⟨e', he', heq⟩ := Option.map_eq_some_iff.mp hshape.symm
    exact ⟨e', he', Entity.endpointKeys_congr heq ▸ hend⟩
  exact ⟨himp h, himp fun key => (h key).symm⟩

theorem Naming.shape {store store' : Store} {names names' : Names}
    (h : Naming store names store' names') (key : EntityKey) :
    (store'.get? key).map Entity.shape = (store.get? key).map Entity.shape := by
  have hread := congrArg (fun store => (store.get? key).map Entity.shape) h.same
  simpa [Store.get?_releaseVariables, Function.comp_def, Entity.releaseVariable] using hread

/-! ### Relations that steps are in -/

section Relations

variable {σ : Type} {hooks : Hooks σ} {m : Moment} {R : FlushState σ → FlushState σ → Prop}

theorem eachObligation_rel (hrefl : ∀ st, R st st) (htrans : ∀ a b c, R a b → R b c → R a c)
    {step : Obligation → FlushState σ → FlushStep σ Unit} {obs : List Obligation}
    (hstep : ∀ ob ∈ obs, ∀ st, R st (step ob st).2) (st : FlushState σ) :
    R st (eachObligation step obs st).2 := by
  induction obs generalizing st with
  | nil => exact hrefl st
  | cons ob rest ih =>
    obtain ⟨hfirst, hrest⟩ := List.forall_mem_cons.mp hstep
    have hone := hfirst st
    rw [eachObligation]
    rcases hrun : step ob st with ⟨_ | _, st₁⟩
    · rw [hrun] at hone
      exact hone
    · rw [hrun] at hone
      exact htrans _ _ _ hone (ih hrest st₁)

theorem releaseTouched_rel (hrefl : ∀ st, R st st) (htrans : ∀ a b c, R a b → R b c → R a c)
    {obs : List Obligation}
    (hrelease : ∀ ob ∈ obs, ∀ st, R st (st.modify ob.key Entity.releaseVariable))
    (st : FlushState σ) : R st (releaseTouched obs st) := by
  induction obs generalizing st with
  | nil => exact hrefl st
  | cons ob rest ih =>
    obtain ⟨hfirst, hrest⟩ := List.forall_mem_cons.mp hrelease
    exact htrans _ _ _ (hfirst st) (ih hrest _)

/-- The step of an entity after the statement is in every transitive relation that calling hooks on
it and the changes of a flush to it are in. -/
theorem afterStep_rel (htrans : ∀ a b c, R a b → R b c → R a c) {ob : Obligation}
    (hnote : ∀ st, R st (st.note (.step ob.key ob.family.after)))
    (hhooks : ∀ st phase result, R st (st.runHooks hooks m phase ob.key result).2)
    (hdispatch : ∀ st result, R st (st.dispatchChanges hooks m ob.key result).2)
    (hrefresh : ∀ st result, R st (st.modify ob.key (Entity.refresh · m result)))
    (hclear : ob.family = .delete → ∀ st, R st (st.modify ob.key Entity.clearId))
    (result : QueryResult) (st : FlushState σ) : R st (afterStep hooks m result ob st).2 := by
  have hnoted := hnote st
  rw [afterStep]
  generalize st.note (.step ob.key ob.family.after) = st₁ at hnoted
  refine htrans _ _ _ hnoted ?_
  cases hfamily : ob.family with
  | create => exact htrans _ _ _ (hrefresh st₁ result) (hhooks _ _ _)
  | update =>
    have hchanges := hdispatch st₁ result
    rcases hrun : st₁.dispatchChanges hooks m ob.key result with ⟨_ | _, st₂⟩
    · rw [hrun] at hchanges
      exact hchanges
    · rw [hrun] at hchanges
      have hafter := hhooks st₂ .afterUpdate (some result)
      dsimp only
      rcases hrun : st₂.runHooks hooks m .afterUpdate ob.key (some result) with ⟨_ | _, st₃⟩
      · rw [hrun] at hafter
        exact htrans _ _ _ hchanges hafter
      · rw [hrun] at hafter
        exact htrans _ _ _ (htrans _ _ _ hchanges hafter) (hrefresh st₃ result)
  | delete =>
    have hafter := hhooks st₁ .afterDelete (some result)
    dsimp only
    rcases hrun : st₁.runHooks hooks m .afterDelete ob.key (some result) with ⟨_ | _, st₂⟩
    · rw [hrun] at hafter
      exact hafter
    · rw [hrun] at hafter
      exact htrans _ _ _ hafter (hclear hfamily st₂)

end Relations

/-! ### Steps without hooks -/

section Steps

variable {σ : Type} {hooks : Hooks σ} {m : Moment} {st st' : FlushState σ}

variable (hhooks : hooks.size = 0)

include hhooks

theorem Hooks.hooks_eq_nil : hooks.hooks = [] := by
  rw [Hooks.size] at hhooks
  exact List.eq_nil_of_length_eq_zero (by omega)

theorem Hooks.handlers_eq_nil : hooks.handlers = [] := by
  rw [Hooks.size] at hhooks
  exact List.eq_nil_of_length_eq_zero (by omega)

/-- Without hooks nothing is called and nothing changes. -/
theorem Hooks.run_eq (phase : Phase) (e : Entity) (result : Option QueryResult) (app : σ) :
    hooks.run m phase e result app = ⟨e, app, [], .ok ()⟩ := by
  rw [Hooks.run, hooks_eq_nil hhooks]
  rfl

theorem Hooks.dispatch_eq (e : Entity) (changes : Dict Change) (result : Option QueryResult)
    (app : σ) : hooks.dispatch m e changes result app = ⟨e, app, [], .ok ()⟩ := by
  rw [Hooks.dispatch]
  generalize false = unhandled
  induction changes.toList generalizing unhandled with
  | nil =>
    rw [Hooks.dispatchEach, run_eq hhooks]
    split <;> rfl
  | cons entry rest ih =>
    obtain ⟨field, change⟩ := entry
    rw [Hooks.dispatchEach, handlers_eq_nil hhooks]
    simp only [Hooks.handleEach, ih, List.nil_append]

theorem runHooks_store (phase : Phase) (key : EntityKey) (result : Option QueryResult)
    (st : FlushState σ) :
    (st.runHooks hooks m phase key result).2.store = st.store ∧
      (st.runHooks hooks m phase key result).2.names = st.names := by
  rw [FlushState.runHooks]
  cases he : st.store.get? key with
  | none => exact ⟨rfl, rfl⟩
  | some e =>
    refine ⟨?_, rfl⟩
    simp only [FlushState.afterHooks, Hooks.run_eq hhooks]
    exact Store.modify_get? he

theorem dispatchChanges_store (key : EntityKey) (result : QueryResult) (st : FlushState σ) :
    (st.dispatchChanges hooks m key result).2.store = st.store ∧
      (st.dispatchChanges hooks m key result).2.names = st.names := by
  rw [FlushState.dispatchChanges]
  cases he : st.store.get? key with
  | none => exact ⟨rfl, rfl⟩
  | some e =>
    simp only
    split
    · exact ⟨rfl, rfl⟩
    · refine ⟨?_, rfl⟩
      simp only [FlushState.afterHooks, Hooks.dispatch_eq hhooks]
      exact Store.modify_get? he

/-- The steps before a statement leave the entities alone, as long as no hook is called in them:
they are there for the hooks. -/
theorem beforeSteps_store (obs : List Obligation) (st : FlushState σ) :
    (eachObligation (beforeStep hooks m) obs st).2.store = st.store ∧
      (eachObligation (beforeStep hooks m) obs st).2.names = st.names := by
  refine eachObligation_rel (R := fun st st' => st'.store = st.store ∧ st'.names = st.names)
    (fun _ => ⟨rfl, rfl⟩) (fun _ _ _ h h' => ⟨h'.1.trans h.1, h'.2.trans h.2⟩) ?_ st
  exact fun ob _ st => runHooks_store hhooks _ _ _ (st.note _)

omit hhooks in
theorem refresh_fades (result : QueryResult) (store : Store) (key : EntityKey) :
    store.Fades (store.modify key (Entity.refresh · m result)) := by
  refine .modify (fun e => ?_) (fun e name hname => ?_) store key
  · rw [Entity.refresh]
    split <;> rfl
  · rw [Entity.refresh] at hname
    split at hname <;> exact hname

/-- The step of an entity after the statement leaves shapes and variables alone. -/
theorem afterStep_fades (result : QueryResult) (ob : Obligation) (st : FlushState σ) :
    st.Fades (afterStep hooks m result ob st).2 := by
  refine afterStep_rel (R := FlushState.Fades) (fun _ _ _ => FlushState.Fades.trans)
    ?_ ?_ ?_ ?_ ?_ result st
  · exact fun st => .refl _
  · intro st phase result
    obtain ⟨hstore, hnames⟩ := runHooks_store (m := m) hhooks phase ob.key result st
    exact ⟨hstore ▸ .refl _, hnames⟩
  · intro st result
    obtain ⟨hstore, hnames⟩ := dispatchChanges_store (m := m) hhooks ob.key result st
    exact ⟨hstore ▸ .refl _, hnames⟩
  · exact fun st result => ⟨refresh_fades result st.store ob.key, rfl⟩
  · exact fun _ st =>
      ⟨.modify (f := Entity.clearId) (fun _ => rfl) (fun _ _ hname => hname) st.store ob.key, rfl⟩

theorem afterSteps_fades (result : QueryResult) (obs : List Obligation) (st : FlushState σ) :
    st.Fades (eachObligation (afterStep hooks m result) obs st).2 :=
  eachObligation_rel FlushState.Fades.refl (fun _ _ _ => FlushState.Fades.trans)
    (fun ob _ => afterStep_fades hhooks result ob) st

omit hhooks in
theorem releaseTouched_fades (obs : List Obligation) (st : FlushState σ) :
    st.Fades (releaseTouched obs st) := by
  refine releaseTouched_rel FlushState.Fades.refl (fun _ _ _ => FlushState.Fades.trans) ?_ st
  exact fun ob _ st => ⟨.modify (f := Entity.releaseVariable) (fun _ => rfl)
    (fun _ _ hname => nomatch hname) st.store ob.key, rfl⟩

/-! ### Operations without hooks -/

omit hhooks in
/-- An operation that is carried out has gone through all of its steps. The steps are named here
with the states between them, so that nothing else has to unfold how an operation is carried out. -/
theorem runOperation_inv {op : Operation} {statement : Option Statement} {result : QueryResult}
    (h : runOperation hooks m op st = (.ok (statement, result), st')) :
    ∃ obs st₁ st₂ st₃, obligations st.store op = .ok obs ∧
      eachObligation (beforeStep hooks m) obs st = (.ok (), st₁) ∧
      (composeOperation m st₁.store st₁.names op).outcome = .ok statement ∧
      executeStatement statement
          { st₁ with
            store := (composeOperation m st₁.store st₁.names op).store
            names := (composeOperation m st₁.store st₁.names op).names } = (.ok result, st₂) ∧
      eachObligation (afterStep hooks m result) obs st₂ = (.ok (), st₃) ∧
      st' = releaseTouched obs st₃ := by
  rw [runOperation] at h
  cases hobs : obligations st.store op with
  | error err => simp [hobs] at h
  | ok obs =>
    rcases hbefore : eachObligation (beforeStep hooks m) obs st with ⟨_ | _, st₁⟩
    · simp [hobs, hbefore] at h
    · cases houtcome : (composeOperation m st₁.store st₁.names op).outcome with
      | error err => simp [hobs, hbefore, houtcome] at h
      | ok statement' =>
        simp only [hobs, hbefore, houtcome] at h
        split at h
        · simp at h
        · rename_i result' st₂ hexecuted
          split at h
          · simp at h
          · rename_i st₃ hafter
            simp only [Prod.mk.injEq, Except.ok.injEq] at h
            obtain ⟨⟨rfl, rfl⟩, rfl⟩ := h
            exact ⟨obs, st₁, st₂, st₃, rfl, hbefore, houtcome, hexecuted, hafter, rfl⟩

omit hhooks in
theorem executeStatement_store {statement : Option Statement}
    {outcome : Except MapperError QueryResult}
    (h : executeStatement statement st = (outcome, st')) :
    st'.store = st.store ∧ st'.names = st.names := by
  cases statement with
  | none =>
    obtain ⟨-, rfl⟩ := Prod.mk.inj h
    exact ⟨rfl, rfl⟩
  | some s =>
    obtain ⟨-, rfl⟩ := Prod.mk.inj h
    exact ⟨rfl, rfl⟩

/-- Carrying out an operation composes its statement from the store as it is, and afterwards
variables are only taken back. -/
theorem runOperation_ok {op : Operation} {statement : Option Statement} {result : QueryResult}
    (h : runOperation hooks m op st = (.ok (statement, result), st')) :
    (composeOperation m st.store st.names op).outcome = .ok statement ∧
      (composeOperation m st.store st.names op).store.Fades st'.store ∧
      st'.names = (composeOperation m st.store st.names op).names := by
  obtain ⟨obs, st₁, st₂, st₃, -, hbefore, houtcome, hexecute, hafter, rfl⟩ := runOperation_inv h
  obtain ⟨hstore₁, hnames₁⟩ : st₁.store = st.store ∧ st₁.names = st.names := by
    have hsteps := beforeSteps_store (m := m) hhooks obs st
    rwa [hbefore] at hsteps
  rw [hstore₁, hnames₁] at houtcome hexecute
  obtain ⟨hstore₂, hnames₂⟩ : st₂.store = (composeOperation m st.store st.names op).store ∧
      st₂.names = (composeOperation m st.store st.names op).names :=
    executeStatement_store hexecute
  obtain ⟨hfades₃, hnames₃⟩ : st₂.store.Fades st₃.store ∧ st₃.names = st₂.names := by
    have hsteps := afterSteps_fades (m := m) hhooks result obs st₂
    rwa [hafter] at hsteps
  obtain ⟨hfades₄, hnames₄⟩ := releaseTouched_fades obs st₃
  refine ⟨houtcome, ?_, ?_⟩
  · exact hstore₂ ▸ hfades₃.trans hfades₄
  · rw [hnames₄, hnames₃, hnames₂]

/-- Between two operations shapes are as they were, and the variables are distinct. -/
theorem runOperation_keeps {op : Operation} {done : Option Statement × QueryResult}
    (hnamed : st.store.NamedBy st.names) (h : runOperation hooks m op st = (.ok done, st')) :
    st'.store.NamedBy st'.names ∧
      ∀ key, (st'.store.get? key).map Entity.shape = (st.store.get? key).map Entity.shape := by
  obtain ⟨statement, result⟩ := done
  obtain ⟨-, hfades, hnames⟩ := runOperation_ok hhooks h
  obtain ⟨hnaming, hnamed'⟩ := composeOperation_naming m op hnamed
  exact ⟨hnames ▸ hfades.namedBy hnamed',
    fun key => (hfades.shape key).trans (hnaming.shape key)⟩

end Steps

/-! ### Executed statements -/

section Executes

variable {σ : Type} {hooks : Hooks σ} {m : Moment} {st st' : FlushState σ}

/-- Carrying out the operations executes the statement, which was composed to this store. -/
inductive Executes (hooks : Hooks σ) (m : Moment) :
    List Operation → FlushState σ → Statement → Store → Prop
  | here {op rest st obs st₁ s} (hobs : obligations st.store op = .ok obs)
      (hbefore : eachObligation (beforeStep hooks m) obs st = (.ok (), st₁))
      (hs : (composeOperation m st₁.store st₁.names op).outcome = .ok (some s)) :
      Executes hooks m (op :: rest) st s (composeOperation m st₁.store st₁.names op).store
  | later {op rest st done st₁ s store} (hop : runOperation hooks m op st = (.ok done, st₁))
      (hlater : Executes hooks m rest st₁ s store) : Executes hooks m (op :: rest) st s store

variable (hhooks : hooks.size = 0)

include hhooks

/-- An entity whose variable an executed statement returns is written by an operation. -/
theorem Executes.targets {ops : List Operation} {s : Statement} {store : Store}
    (h : Executes hooks m ops st s store) (hnamed : st.store.NamedBy st.names) {key : EntityKey}
    {name : String} (hname : store.nameOf? key = some name) (hreturned : name ∈ s.returns) :
    ∃ op ∈ ops, op.Targets st.store key := by
  induction h with
  | @here op rest st obs st₁ s hobs hbefore hs =>
    have hsteps := beforeSteps_store (m := m) hhooks obs st
    rw [hbefore] at hsteps
    obtain ⟨hstore, hnames⟩ : st₁.store = st.store ∧ st₁.names = st.names := hsteps
    rw [hstore, hnames] at hs hname
    exact ⟨op, List.mem_cons_self ..,
      (mem_returns_composeOperation hnamed hs).mp ⟨name, hname, hreturned⟩⟩
  | @later op rest st done st₁ s store hop hlater ih =>
    obtain ⟨hnamed₁, hshape⟩ := runOperation_keeps hhooks hnamed hop
    obtain ⟨op', hop', htargets⟩ := ih hnamed₁ hname hreturned
    exact ⟨op', List.mem_cons_of_mem _ hop', (Operation.targets_congr hshape).mp htargets⟩

omit hhooks in
theorem executes_of_runOperation {op : Operation} {rest : List Operation} {s : Statement}
    {result : QueryResult} (h : runOperation hooks m op st = (.ok (some s, result), st')) :
    ∃ store, Executes hooks m (op :: rest) st s store := by
  obtain ⟨obs, st₁, -, -, hobs, hbefore, houtcome, -, -, -⟩ := runOperation_inv h
  exact ⟨_, .here hobs hbefore houtcome⟩

omit hhooks in
/-- The response lists executed statements only, and it only gets longer. -/
theorem mem_statements {ops : List Operation} {response response' : Response}
    (h : runOperations hooks m ops response st = (.ok response', st')) :
    response.statements ⊆ response'.statements ∧
      ∀ s ∈ response'.statements,
        s ∈ response.statements ∨ ∃ store, Executes hooks m ops st s store := by
  induction ops generalizing response st with
  | nil =>
    obtain ⟨heq, -⟩ := Prod.mk.inj h
    obtain rfl := Except.ok.inj heq
    exact ⟨fun _ hs => hs, fun _ hs => .inl hs⟩
  | cons op rest ih =>
    rw [runOperations] at h
    rcases hop : runOperation hooks m op st with ⟨_ | ⟨statement, result⟩, st₁⟩
    · simp [hop] at h
    · simp only [hop] at h
      obtain ⟨hlonger, honly⟩ := ih h
      refine ⟨fun s hs => hlonger (List.mem_append_left _ hs), fun s hs => ?_⟩
      rcases honly s hs with hmem | ⟨store, hlater⟩
      · rcases List.mem_append.mp hmem with hold | hnew
        · exact .inl hold
        · obtain rfl := Option.mem_toList.mp hnew
          exact .inr (executes_of_runOperation hop)
      · exact .inr ⟨store, .later hop hlater⟩

/-- When all operations are carried out, every entity that one of them writes is returned by a
statement. It is by the returned variable that an entity is found in the result and settled. -/
theorem exists_executes {ops : List Operation} {response response' : Response}
    (h : runOperations hooks m ops response st = (.ok response', st'))
    (hnamed : st.store.NamedBy st.names) {op : Operation} (hop : op ∈ ops) {key : EntityKey}
    (htargets : op.Targets st.store key) :
    ∃ s store, Executes hooks m ops st s store ∧ s ∈ response'.statements ∧
      ∃ name, store.nameOf? key = some name ∧ name ∈ s.returns := by
  induction ops generalizing response st with
  | nil => exact absurd hop List.not_mem_nil
  | cons first rest ih =>
    rw [runOperations] at h
    rcases hfirst : runOperation hooks m first st with ⟨_ | ⟨statement, result⟩, st₁⟩
    · simp [hfirst] at h
    · simp only [hfirst] at h
      rcases List.mem_cons.mp hop with rfl | hop
      · obtain ⟨obs, st₀, -, -, hobs, hbefore, houtcome, -, -, -⟩ := runOperation_inv hfirst
        obtain ⟨hstore, hnames⟩ : st₀.store = st.store ∧ st₀.names = st.names := by
          have hsteps := beforeSteps_store (m := m) hhooks obs st
          rwa [hbefore] at hsteps
        obtain ⟨s, rfl⟩ : ∃ s, statement = some s := by
          rw [composeOperation, htargets.1] at houtcome
          cases hsave : (composeSave m st₀.store st₀.names [op.key]).outcome with
          | error err => simp [hsave, Except.map] at houtcome
          | ok s => exact ⟨s, by simpa [hsave, Except.map] using houtcome.symm⟩
        have hnamed₀ : st₀.store.NamedBy st₀.names := hstore ▸ hnames ▸ hnamed
        obtain ⟨name, hname, hreturned⟩ :=
          (mem_returns_composeOperation hnamed₀ houtcome).mpr (hstore ▸ htargets)
        refine ⟨s, _, .here hobs hbefore houtcome, ?_, name, hname, hreturned⟩
        exact (mem_statements h).1 (List.mem_append_right _ (List.mem_singleton_self s))
      · obtain ⟨hnamed₁, hshape⟩ := runOperation_keeps hhooks hnamed hfirst
        obtain ⟨s, store, hexecutes, hrest⟩ :=
          ih h hnamed₁ hop ((Operation.targets_congr hshape).mpr htargets)
        exact ⟨s, store, .later hfirst hexecutes, hrest⟩

end Executes

end GraphMapping
