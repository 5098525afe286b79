import GraphMapping.Proofs.Except
import GraphMapping.Proofs.Statement.Composing
import GraphMapping.Proofs.Work.FlushSteps

/-!
# How an operation settles what it touches

An operation touches the entity that it is on and, when it saves a relationship, the stored ends.
Without hooks the steps before and after its statement do nothing but this: every touched entity is
brought in line with the result, or loses its id when it is deleted, and gives back its variable.
None of these steps can fail. So there are three ways for an operation to fail, all of them before
any entity has changed: an entity is unknown, the statement cannot be composed, or the connection
refuses it.

Nothing is assumed about the variables in the store.

## Main definitions

* `Operation.Touches`, `Operation.touched`: the entities that an operation touches.
* `OperationKind.settle`: what is made of a touched entity.
* `Operation.Fails`: why an operation fails.
* `Operation.Settles`: what carrying out an operation does to the store.

## Main results

* `beforeSteps_eq`, `afterSteps_eq`: the steps around a statement, without hooks.
* `runOperation_settles`: an operation that is carried out.
* `runOperation_fails`: an operation that fails.
-/

namespace GraphMapping

/-! ### Changing several entities -/

/-- Change the entities of some keys, one after the other. -/
def Store.modifyEach (store : Store) (keys : List EntityKey) (f : Entity → Entity) : Store :=
  keys.foldl (fun store key => store.modify key f) store

namespace Store

variable {store : Store} {keys : List EntityKey} {key : EntityKey} {f : Entity → Entity}

theorem get?_modifyEach_of_not_mem (h : key ∉ keys) :
    (store.modifyEach keys f).get? key = store.get? key := by
  induction keys generalizing store with
  | nil => rfl
  | cons first rest ih =>
    obtain ⟨hfirst, hrest⟩ := not_or.mp (fun hmem => h (List.mem_cons.mpr hmem))
    exact (ih hrest).trans (get?_modify_of_ne store hfirst f)

/-- When no key is there twice, every one of the entities changes once. -/
theorem get?_modifyEach_of_mem (hnodup : keys.Nodup) (h : key ∈ keys) :
    (store.modifyEach keys f).get? key = (store.get? key).map f := by
  induction keys generalizing store with
  | nil => exact absurd h List.not_mem_nil
  | cons first rest ih =>
    obtain ⟨hfirst, hrest⟩ := List.nodup_cons.mp hnodup
    rcases List.mem_cons.mp h with rfl | hmem
    · exact (get?_modifyEach_of_not_mem hfirst).trans (get?_modify_self store key f)
    · have hne : key ≠ first := fun heq => hfirst (heq ▸ hmem)
      exact (ih hrest hmem).trans (congrArg _ (get?_modify_of_ne store hne f))

theorem isSome_get?_modify (store : Store) (changed : EntityKey) (f : Entity → Entity)
    (key : EntityKey) : ((store.modify changed f).get? key).isSome = (store.get? key).isSome := by
  by_cases hkey : key = changed
  · rw [hkey, get?_modify_self, Option.isSome_map]
  · rw [get?_modify_of_ne store hkey]

end Store

/-! ### Touched entities -/

/-- The operation touches the entity: it is on it or writes it. -/
def Operation.Touches (store : Store) (op : Operation) (key : EntityKey) : Prop :=
  key = op.key ∨ op.Targets store key

/-- The operation is a delete of the entity. -/
def Operation.Deletes (op : Operation) (key : EntityKey) : Prop := op.key = key ∧ op.kind ≠ .save

/-- The entities that an operation touches, in the order of its steps. -/
def Operation.touched (store : Store) (op : Operation) : List EntityKey :=
  match op.kind with
  | .save => (store.get? op.key).elim [] Entity.endpointKeys ++ [op.key]
  | .delete _ => [op.key]

namespace Operation

variable {store store' : Store} {op : Operation} {key : EntityKey}

theorem Targets.touches (h : op.Targets store key) : op.Touches store key := .inr h

/-- What an operation touches depends on the shapes only. -/
theorem touches_congr
    (h : ∀ key, (store'.get? key).map Entity.shape = (store.get? key).map Entity.shape) :
    op.Touches store' key ↔ op.Touches store key :=
  or_congr_right (targets_congr h)

theorem mem_touched : key ∈ op.touched store ↔ op.Touches store key := by
  rw [touched, Touches, Targets]
  cases op.kind with
  | delete detach => simp
  | save =>
    cases he : store.get? op.key with
    | none => simp
    | some e => simp [or_comm]

/-- An entity that a delete touches is the deleted one. -/
theorem Touches.deletes (h : op.Touches store key) (hkind : op.kind ≠ .save) : op.Deletes key :=
  ⟨(h.resolve_right fun htargets => hkind htargets.1).symm, hkind⟩

/-- The stored ends of a relationship to save are nodes. -/
def JoinsNodes (store : Store) (op : Operation) : Prop :=
  op.kind = .save → ∀ e, store.get? op.key = some e → ∀ key ∈ e.endpointKeys, ∀ node,
    store.get? key = some node → node.isNode = true

/-- What can be written joins nodes. -/
theorem joinsNodes_of_accepted (h : op.kind = .save → Batch.Accepted store op.key) :
    op.JoinsNodes store := by
  intro hkind e he key hkey node hnode
  obtain ⟨role, hend⟩ := Entity.mem_endpointKeys.mp hkey
  obtain ⟨e', he', hends⟩ := h hkind
  obtain rfl := Option.some.inj (he.symm.trans he')
  rcases hends with hself | ⟨start, finish, hstart, hfinish, hnodeStart, hnodeFinish⟩
  · rw [Entity.endpoint?_of_isNode hself] at hend
    cases hend
  · have hisNode : ∃ x, e.endpoint? role = some x ∧ Batch.IsNodeEnd store x := by
      cases role
      · exact ⟨start, hstart, hnodeStart⟩
      · exact ⟨finish, hfinish, hnodeFinish⟩
    obtain ⟨x, hx, hx'⟩ := hisNode
    obtain ⟨node', hnode', hkindNode⟩ := hx' key (Option.some.inj (hx.symm.trans hend))
    obtain rfl := Option.some.inj (hnode.symm.trans hnode')
    exact hkindNode

/-- No entity is touched twice when the ends of a relationship to save are nodes. -/
theorem nodup_touched (h : op.JoinsNodes store) : (op.touched store).Nodup := by
  rw [touched]
  cases hkind : op.kind with
  | delete detach => exact List.nodup_singleton _
  | save =>
    cases he : store.get? op.key with
    | none => exact List.nodup_singleton _
    | some e =>
      rw [Option.elim_some]
      refine List.nodup_append.mpr ⟨?_, List.nodup_singleton _, ?_⟩
      · rw [Entity.endpointKeys]
        dsimp only
        split
        · split <;> simp_all
        · exact List.nodup_singleton _
        · exact List.nodup_singleton _
        · exact List.nodup_nil
      · intro a ha b hb hab
        rw [hab, List.mem_singleton.mp hb] at ha
        obtain ⟨role, hend⟩ := Entity.mem_endpointKeys.mp ha
        rw [Entity.endpoint?_of_isNode (h hkind e he op.key ha e he)] at hend
        cases hend

end Operation

/-! ### Obligations -/

/-- What is made of a touched entity once the statement has a result. -/
def OperationKind.settle (m : Moment) (result : QueryResult) (e : Entity) : OperationKind → Entity
  | .save => e.refresh m result
  | .delete _ => e.clearId

/-- The change of an entity after the statement, by the family of its phases. -/
def Family.settle (m : Moment) (result : QueryResult) (e : Entity) : Family → Entity
  | .create | .update => e.refresh m result
  | .delete => e.clearId

/-- The obligations of an operation are on what it touches, all of it stored. -/
theorem obligations_ok {store : Store} {op : Operation} {obs : List Obligation}
    (h : obligations store op = .ok obs) :
    obs.map (·.key) = op.touched store ∧ ∀ ob ∈ obs, (store.get? ob.key).isSome ∧
      ∀ m result e, ob.family.settle m result e = op.kind.settle m result e := by
  rw [obligations, Store.find] at h
  cases he : store.get? op.key with
  | none => simp [he] at h
  | some e =>
    rw [Operation.touched, he]
    simp only [he] at h
    cases hkind : op.kind with
    | delete detach =>
      rw [hkind] at h
      obtain rfl := Except.ok.inj h
      refine ⟨rfl, fun ob hob => ?_⟩
      obtain rfl := List.mem_singleton.mp hob
      exact ⟨by rw [he]; rfl, fun _ _ _ => rfl⟩
    | save =>
      rw [hkind] at h
      have hone : ∀ key ob, saveObligation store key = .ok ob → ob.key = key ∧
          (store.get? ob.key).isSome ∧
            ∀ m result e, ob.family.settle m result e = Entity.refresh e m result := by
        intro key ob hob
        rw [saveObligation, Store.find] at hob
        cases hkey : store.get? key with
        | none => simp [hkey, Except.map] at hob
        | some e' =>
          rw [hkey] at hob
          obtain rfl := Except.ok.inj hob
          refine ⟨rfl, by rw [hkey]; rfl, fun _ _ _ => ?_⟩
          dsimp only
          split <;> rfl
      have heach := List.mapM_eq_ok_iff.mp h
      clear h
      rw [Option.elim_some]
      generalize e.endpointKeys ++ [op.key] = touched at heach ⊢
      induction heach with
      | nil => exact ⟨rfl, nofun⟩
      | @cons key ob keys obs hob hrest ih =>
        obtain ⟨hkey, hstored, hfamily⟩ := hone key ob hob
        refine ⟨?_, fun ob' hob' => ?_⟩
        · rw [List.map_cons, hkey, ih.1]
        · rcases List.mem_cons.mp hob' with rfl | hob'
          · exact ⟨hstored, hfamily⟩
          · exact ih.2 ob' hob'

/-- Handing out variables leaves the obligations what they are. -/
theorem settles_obligations {store store' : Store} {names names' : Names} {op : Operation}
    {obs : List Obligation} (hobs : obligations store op = .ok obs)
    (hnaming : Naming store names store' names') (m : Moment) (result : QueryResult) :
    ∀ ob ∈ obs, (store'.get? ob.key).isSome ∧
      ∀ e, ob.family.settle m result e = op.kind.settle m result e := by
  intro ob hob
  obtain ⟨hstored, hsettle⟩ := (obligations_ok hobs).2 ob hob
  obtain ⟨e, he⟩ := Option.isSome_iff_exists.mp hstored
  obtain ⟨e', he', -⟩ := hnaming.get? he
  exact ⟨Option.isSome_iff_exists.mpr ⟨e', he'⟩, hsettle m result⟩

/-! ### The steps around a statement -/

section Steps

variable {σ : Type} {hooks : Hooks σ} {m : Moment} {st st' : FlushState σ}

variable (hhooks : hooks.size = 0)

include hhooks

omit hhooks in
theorem FlushState.afterHooks_eq {key : EntityKey} {e : Entity} (he : st.store.get? key = some e) :
    st.afterHooks key ⟨e, st.app, [], .ok ()⟩ = (.ok (), st) := by
  rw [FlushState.afterHooks, Store.modify_get? he, List.map_nil, List.append_nil]

theorem runHooks_eq {key : EntityKey} (hstored : (st.store.get? key).isSome) (phase : Phase)
    (result : Option QueryResult) : st.runHooks hooks m phase key result = (.ok (), st) := by
  obtain ⟨e, he⟩ := Option.isSome_iff_exists.mp hstored
  simp only [FlushState.runHooks, he, Hooks.run_eq hhooks, FlushState.afterHooks_eq he]

theorem dispatchChanges_eq {key : EntityKey} (hstored : (st.store.get? key).isSome)
    (result : QueryResult) : st.dispatchChanges hooks m key result = (.ok (), st) := by
  obtain ⟨e, he⟩ := Option.isSome_iff_exists.mp hstored
  simp only [FlushState.dispatchChanges, he, Hooks.dispatch_eq hhooks,
    FlushState.afterHooks_eq he, ite_self]

/-- Before a statement every touched entity has its step, which is only noted. -/
theorem beforeSteps_eq {obs : List Obligation}
    (hstored : ∀ ob ∈ obs, (st.store.get? ob.key).isSome) :
    eachObligation (beforeStep hooks m) obs st =
      (.ok (), { st with
        journal := st.journal ++ obs.map fun ob => .step ob.key ob.family.before }) := by
  induction obs generalizing st with
  | nil => simp [eachObligation]
  | cons ob rest ih =>
    obtain ⟨hob, hrest⟩ := List.forall_mem_cons.mp hstored
    have hnoted : ∀ {key : EntityKey}, (st.store.get? key).isSome →
        ((st.note (.step ob.key ob.family.before)).store.get? key).isSome := id
    rw [eachObligation, beforeStep, runHooks_eq hhooks (hnoted hob)]
    refine (ih fun ob' hob' => hnoted (hrest ob' hob')).trans ?_
    simp [FlushState.note]

theorem afterStep_eq {ob : Obligation} (hstored : (st.store.get? ob.key).isSome)
    (result : QueryResult) : afterStep hooks m result ob st =
      (.ok (), (st.note (.step ob.key ob.family.after)).modify ob.key
        (ob.family.settle m result ·)) := by
  have hnoted : ((st.note (.step ob.key ob.family.after)).store.get? ob.key).isSome := hstored
  rw [afterStep]
  generalize st.note (.step ob.key ob.family.after) = st₁ at hnoted ⊢
  cases ob.family with
  | create =>
    have hmodified : ((st₁.modify ob.key (Entity.refresh · m result)).store.get? ob.key).isSome :=
      (Store.isSome_get?_modify ..).trans hnoted
    exact runHooks_eq hhooks hmodified ..
  | update =>
    simp only [dispatchChanges_eq hhooks hnoted, runHooks_eq hhooks hnoted]
    rfl
  | delete =>
    simp only [runHooks_eq hhooks hnoted]
    rfl

/-- After a statement every touched entity is settled. The steps are independent of each other,
because no entity has two of them. -/
theorem afterSteps_eq {obs : List Obligation} {result : QueryResult} {f : Entity → Entity}
    (hobs : ∀ ob ∈ obs, (st.store.get? ob.key).isSome ∧ ∀ e, ob.family.settle m result e = f e) :
    eachObligation (afterStep hooks m result) obs st =
      (.ok (), { st with
        store := st.store.modifyEach (obs.map (·.key)) f
        journal := st.journal ++ obs.map fun ob => .step ob.key ob.family.after }) := by
  induction obs generalizing st with
  | nil => simp [eachObligation, Store.modifyEach]
  | cons ob rest ih =>
    obtain ⟨⟨hstored, hsettle⟩, hrest⟩ := List.forall_mem_cons.mp hobs
    rw [eachObligation, afterStep_eq hhooks hstored, funext hsettle]
    refine (ih fun ob' hob' => ⟨?_, (hrest ob' hob').2⟩).trans ?_
    · exact (Store.isSome_get?_modify ..).trans (hrest ob' hob').1
    simp [FlushState.note, FlushState.modify, Store.modifyEach]

omit hhooks in
theorem releaseTouched_eq (obs : List Obligation) (st : FlushState σ) :
    releaseTouched obs st =
      { st with store := st.store.modifyEach (obs.map (·.key)) Entity.releaseVariable } := by
  induction obs generalizing st with
  | nil => rfl
  | cons ob rest ih => exact ih _

end Steps

/-! ### Composing an operation -/

section Compose

variable {store : Store} {names : Names} {m : Moment} {op : Operation}

/-- An operation is on something that can be written when its statement is composed. -/
theorem accepted_of_composeOperation {statement : Option Statement}
    (h : (composeOperation m store names op).outcome = .ok statement) (hkind : op.kind = .save) :
    Batch.check store [op.key] = .ok () := by
  simp only [composeOperation, hkind, composeSave] at h
  cases hcheck : Batch.check store [op.key] with
  | error err => simp [hcheck, Except.map] at h
  | ok u => rfl

/-- So it touches no entity twice. Otherwise the second step on an entity would see what the first
one has made of it. -/
theorem nodup_touched_of_outcome {statement : Option Statement}
    (h : (composeOperation m store names op).outcome = .ok statement) :
    (op.touched store).Nodup :=
  Operation.nodup_touched (Operation.joinsNodes_of_accepted fun hkind => Batch.accepted_of_check
    (accepted_of_composeOperation h hkind) _ (List.mem_singleton_self _))

/-- What composing leads to when the operation is the save of something that can be written. -/
theorem composeOperation_of_save (hkind : op.kind = .save)
    (hcheck : Batch.check store [op.key] = .ok ()) : composeOperation m store names op =
      ⟨.ok (some (Batch.draft m store names [op.key]).clauses.toStatement),
        (Batch.draft m store names [op.key]).store, (Batch.draft m store names [op.key]).names⟩ := by
  simp only [composeOperation, hkind, Batch.composeSave_eq hcheck, Except.map]

theorem saved_draft (m : Moment) (names : Names) (hcheck : Batch.check store [op.key] = .ok ()) :
    Draft.Saved { store, names } op.key (Batch.draft m store names [op.key]) :=
  Draft.saved_save (Batch.accepted_of_check hcheck _ (List.mem_singleton_self _)) rfl

/-- Composing an operation only hands out variables, whatever variables there are. -/
theorem composeOperation_hands_out (m : Moment) (store : Store) (names : Names) (op : Operation) :
    Naming store names (composeOperation m store names op).store
      (composeOperation m store names op).names := by
  cases hkind : op.kind with
  | delete detach =>
    rw [composeOperation, hkind]
    exact collectDeletion_hands_out store names {} [op.key]
  | save =>
    cases hcheck : Batch.check store [op.key] with
    | error err =>
      simp only [composeOperation, hkind, composeSave, hcheck]
      exact .refl store names
    | ok u =>
      rw [composeOperation_of_save hkind hcheck]
      exact (saved_draft m names hcheck).naming

/-- The statement of a save returns the variables of its targets. -/
theorem exists_returned_of_targets {statement : Option Statement}
    (h : (composeOperation m store names op).outcome = .ok statement) {key : EntityKey}
    (htargets : op.Targets store key) :
    ∃ s name, statement = some s ∧
      (composeOperation m store names op).store.nameOf? key = some name ∧ name ∈ s.returns := by
  have hcheck := accepted_of_composeOperation h htargets.1
  have hmentioned : .entity key ∈ Batch.mentioned store op.key :=
    Batch.mem_mentioned.mpr htargets.2
  obtain ⟨name, hname, hreturned⟩ := (saved_draft m names hcheck).returned key hmentioned
  rw [composeOperation_of_save htargets.1 hcheck] at h ⊢
  exact ⟨_, name, (Except.ok.inj h).symm, hname, hreturned⟩

end Compose

/-! ### Operations -/

section Operations

variable {σ : Type} {hooks : Hooks σ} {m : Moment} {st st' : FlushState σ} {op : Operation}

/-- What carrying out an operation does to the store: next to handing out variables, every touched
entity is settled and gives back its own. -/
structure Operation.Settles (m : Moment) (op : Operation) (store : Store) (names : Names)
    (result : QueryResult) (store' : Store) : Prop where
  touched : ∀ key, op.Touches store key →
    store'.get? key = ((composeOperation m store names op).store.get? key).map fun e =>
      (op.kind.settle m result e).releaseVariable
  untouched : ∀ key, ¬ op.Touches store key →
    store'.get? key = (composeOperation m store names op).store.get? key

/-- Why an operation fails: an entity that it touches is unknown, its statement cannot be composed,
or the connection refuses the statement. -/
inductive Operation.Fails (m : Moment) (op : Operation) (st : FlushState σ) : MapperError → Prop
  | unknown {key : EntityKey} (htouches : op.Touches st.store key)
    (h : st.store.get? key = none) : Fails m op st (.unknownEntity key)
  | uncomposed {err : MapperError}
    (h : (composeOperation m st.store st.names op).outcome = .error err) : Fails m op st err
  | refused {s : Statement} {err : MapperError}
    (hs : (composeOperation m st.store st.names op).outcome = .ok (some s))
    (h : (st.connection.execute s).1 = .error err) : Fails m op st err

theorem obligations_error {store : Store} {err : MapperError}
    (h : obligations store op = .error err) :
    ∃ key, op.Touches store key ∧ store.get? key = none ∧ err = .unknownEntity key := by
  rw [obligations, Store.find] at h
  cases he : store.get? op.key with
  | none =>
    rw [he] at h
    exact ⟨op.key, .inl rfl, he, (Except.error.inj h).symm⟩
  | some e =>
    simp only [he] at h
    cases hkind : op.kind with
    | delete detach => simp [hkind] at h
    | save =>
      rw [hkind] at h
      obtain ⟨key, hkey, herror⟩ := List.exists_of_mapM_eq_error h
      refine ⟨key, ?_, ?_⟩
      · rw [← Operation.mem_touched, Operation.touched, hkind, he]
        exact hkey
      · rw [saveObligation, Store.find] at herror
        cases hnone : store.get? key with
        | some e' => simp [hnone, Except.map] at herror
        | none =>
          rw [hnone] at herror
          exact ⟨rfl, (Except.error.inj herror).symm⟩

variable (hhooks : hooks.size = 0)

include hhooks

/-- An operation that is carried out settles what it touches. -/
theorem runOperation_settles {statement : Option Statement} {result : QueryResult}
    (h : runOperation hooks m op st = (.ok (statement, result), st')) :
    (composeOperation m st.store st.names op).outcome = .ok statement ∧
      op.Settles m st.store st.names result st'.store := by
  obtain ⟨obs, st₁, st₂, st₃, hobs, hbefore, houtcome, hexecute, hafter, rfl⟩ := runOperation_inv h
  obtain ⟨hkeys, hstored⟩ := obligations_ok hobs
  obtain rfl := (Prod.mk.inj ((beforeSteps_eq hhooks fun ob hob =>
    (hstored ob hob).1).symm.trans hbefore)).2
  have hstore₂ : st₂.store = (composeOperation m st.store st.names op).store :=
    (executeStatement_store hexecute).1
  have hnaming := composeOperation_hands_out m st.store st.names op
  rw [← hstore₂] at hnaming
  have hstored₂ := settles_obligations hobs hnaming m result
  obtain rfl := (Prod.mk.inj ((afterSteps_eq hhooks hstored₂).symm.trans hafter)).2
  have hnodup : (obs.map (·.key)).Nodup := hkeys ▸ nodup_touched_of_outcome houtcome
  rw [releaseTouched_eq]
  refine ⟨houtcome, fun key htouches => ?_, fun key htouches => ?_⟩
  · have hmem : key ∈ obs.map (·.key) := hkeys ▸ Operation.mem_touched.mpr htouches
    rw [Store.get?_modifyEach_of_mem hnodup hmem, Store.get?_modifyEach_of_mem hnodup hmem,
      Option.map_map, hstore₂]
    rfl
  · have hmem : key ∉ obs.map (·.key) := fun hmem =>
      htouches (Operation.mem_touched.mp (hkeys ▸ hmem))
    rw [Store.get?_modifyEach_of_not_mem hmem, Store.get?_modifyEach_of_not_mem hmem, hstore₂]

/-- An operation that fails has only handed out variables. Without hooks it fails before its
statement is answered, and ids and baselines are written after that. -/
theorem runOperation_fails {err : MapperError}
    (h : runOperation hooks m op st = (.error err, st')) :
    op.Fails m st err ∧ st'.store.releaseVariables = st.store.releaseVariables := by
  rw [runOperation] at h
  cases hobs : obligations st.store op with
  | error err' =>
    rw [hobs] at h
    obtain ⟨herr, rfl⟩ := Prod.mk.inj h
    obtain rfl := Except.error.inj herr
    obtain ⟨key, htouches, hnone, rfl⟩ := obligations_error hobs
    exact ⟨.unknown htouches hnone, rfl⟩
  | ok obs =>
    obtain ⟨hkeys, hstored⟩ := obligations_ok hobs
    have hnaming := composeOperation_hands_out m st.store st.names op
    simp only [hobs, beforeSteps_eq hhooks fun ob hob => (hstored ob hob).1] at h
    cases houtcome : (composeOperation m st.store st.names op).outcome with
    | error err' =>
      rw [houtcome] at h
      obtain ⟨herr, rfl⟩ := Prod.mk.inj h
      obtain rfl := Except.error.inj herr
      exact ⟨.uncomposed houtcome, hnaming.same⟩
    | ok statement =>
      simp only [houtcome] at h
      split at h
      · rename_i err' st₂ hexecute
        obtain ⟨herr, rfl⟩ := Prod.mk.inj h
        obtain rfl := Except.error.inj herr
        cases statement with
        | none => cases hexecute
        | some s =>
          obtain ⟨hrefused, rfl⟩ := Prod.mk.inj hexecute
          exact ⟨.refused houtcome hrefused, hnaming.same⟩
      · rename_i result st₂ hexecute
        have hstore₂ : st₂.store = (composeOperation m st.store st.names op).store :=
          (executeStatement_store hexecute).1
        rw [← hstore₂] at hnaming
        rw [afterSteps_eq hhooks (settles_obligations hobs hnaming m result)] at h
        cases h

end Operations

end GraphMapping
