import GraphMapping.Proofs.Work.Course
import GraphMapping.Proofs.Work.Turns

/-!
# Ids in the steps of a flush

An entity gets its id, or loses it, in its own step after the statement. Hooks are called in these
steps, and a hook that fails ends the flush at once: the entities whose steps come later do not get
there. What becomes of the id of an entity is therefore told by how far the steps have come. Hooks
may do anything to their entity but take its id away; no operation on entities that is open to them
does.

## Main definitions

* `Hooks.KeepIds`: registrations that never take an id away.
* `Reply.Reached`, `Reply.Finished`: how far the steps after a statement have come for an entity.

## Main results

* `Entity.Command.keeps_id`: no operation on entities takes an id away.
* `stepsWithin_keepsId`, `stepsWithin_idOf?`: an operation keeps the ids of what it does not delete,
  and does nothing to the ids of what it does not touch.
* `Reply.isSome_idOf?_runOperation`, `Reply.idOf?_runOperation_of_deletes`,
  `Reply.idOf?_runOperation_of_not_reached`: what the steps after a statement do to ids.
-/

namespace GraphMapping

variable {σ : Type}

/-! ### Ids that are kept -/

/-- What has an id in the first store has one in the second. -/
def Store.KeepsId (store : Store) (key : EntityKey) (store' : Store) : Prop :=
  (store.idOf? key).isSome → (store'.idOf? key).isSome

/-- If the first entity has an id, then so does the second. -/
def Entity.KeepsId (e e' : Entity) : Prop := e.id.isSome → e'.id.isSome

theorem Entity.KeepsId.refl (e : Entity) : e.KeepsId e := fun h => h

theorem Entity.KeepsId.trans {e e' e'' : Entity} (h : e.KeepsId e') (h' : e'.KeepsId e'') :
    e.KeepsId e'' := h' ∘ h

/-- No registration takes the id of an entity away. -/
def Hooks.KeepIds (hooks : Hooks σ) : Prop := hooks.Within Entity.KeepsId

/-- The id of an entity is out of the application's reach once it is there. -/
theorem Entity.Command.keeps_id (command : Entity.Command) (e : Entity) :
    e.KeepsId (command.apply e) := (command.keeps_of_apply e).2

namespace Store

variable {store : Store} {key other : EntityKey} {f : Entity → Entity}

theorem idOf?_modify_of_ne (h : key ≠ other) :
    (store.modify other f).idOf? key = store.idOf? key := by
  rw [idOf?, get?_modify_of_ne store h, idOf?]

theorem keepsId_modify (h : ∀ e, store.get? other = some e → e.id.isSome → (f e).id.isSome) :
    store.KeepsId key (store.modify other f) := by
  intro hid
  by_cases hkey : key = other
  · subst hkey
    obtain ⟨id, hid⟩ := Option.isSome_iff_exists.mp hid
    obtain ⟨e, he, hid⟩ := Option.bind_eq_some_iff.mp hid
    rw [idOf?, get?_modify_self, he]
    exact h e he (by rw [hid]; rfl)
  · rwa [idOf?_modify_of_ne hkey]

end Store

theorem idOf?_composeOperation (m : Moment) (store : Store) (names : Names) (op : Operation)
    (key : EntityKey) : (composeOperation m store names op).store.idOf? key = store.idOf? key := by
  have hread := congrArg (fun store => (store.get? key).bind (·.id))
    (composeOperation_hands_out m store names op).same
  simpa [Store.idOf?, Store.get?_releaseVariables, Option.bind_map, Function.comp_def,
    Entity.releaseVariable] using hread

theorem store_executeStatement (statement : Option Statement) (st : FlushState σ) :
    (executeStatement statement st).2.store = st.store := by
  cases statement <;> rfl

/-! ### What happens to a touched entity -/

/-- The family of phases that an operation takes an entity through. -/
def Operation.familyOf (store : Store) (op : Operation) (key : EntityKey) : Family :=
  match op.kind with
  | .save => if (store.idOf? key).isSome then .update else .create
  | .delete _ => .delete

namespace Operation

theorem familyOf_eq_delete {store : Store} {op : Operation} {key : EntityKey} :
    op.familyOf store key = .delete ↔ op.kind ≠ .save := by
  rw [familyOf]
  cases op.kind with
  | save => cases (store.idOf? key).isSome <;> simp
  | delete detach => simp

theorem familyOf_eq_update {store : Store} {op : Operation} {key : EntityKey} :
    op.familyOf store key = .update ↔ op.kind = .save ∧ (store.idOf? key).isSome := by
  rw [familyOf]
  cases op.kind with
  | save => cases (store.idOf? key).isSome <;> simp
  | delete detach => simp

end Operation

/-- The obligations of an operation tell what it touches, and what happens to it. -/
theorem obligations_eq {store : Store} {op : Operation} {obs : List Obligation}
    (h : obligations store op = .ok obs) :
    obs = (op.touched store).map fun key => ⟨key, op.familyOf store key⟩ := by
  rw [obligations, Store.find] at h
  cases he : store.get? op.key with
  | none => simp [he] at h
  | some e =>
    simp only [he] at h
    cases hkind : op.kind with
    | delete detach =>
      rw [hkind] at h
      simp [← Except.ok.inj h, Operation.touched, Operation.familyOf, hkind]
    | save =>
      rw [hkind] at h
      have hone : ∀ key ob, saveObligation store key = .ok ob →
          ob = ⟨key, op.familyOf store key⟩ := by
        intro key ob hob
        rw [saveObligation, Store.find] at hob
        cases hkey : store.get? key with
        | none => simp [hkey, Except.map] at hob
        | some e' =>
          rw [hkey] at hob
          rw [← Except.ok.inj hob, Operation.familyOf, hkind, Store.idOf?, hkey]
          rfl
      have heach := List.mapM_eq_ok_iff.mp h
      rw [Operation.touched, hkind, he, Option.elim_some]
      clear h
      generalize e.endpointKeys ++ [op.key] = touched at heach ⊢
      induction heach with
      | nil => rfl
      | cons hob hrest ih => rw [List.map_cons, hone _ _ hob, ih]

/-- An obligation is about something that the operation touches, and is of its family. -/
theorem of_mem_obligations {store : Store} {op : Operation} {obs : List Obligation}
    {ob : Obligation} (h : obligations store op = .ok obs) (hob : ob ∈ obs) :
    op.Touches store ob.key ∧ ob.family = op.familyOf store ob.key := by
  rw [obligations_eq h] at hob
  obtain ⟨key, htouched, rfl⟩ := List.mem_map.mp hob
  exact ⟨Operation.mem_touched.mp htouched, rfl⟩

/-- Only what is deleted goes through the phases of a delete. -/
theorem deletes_of_mem_obligations {store : Store} {op : Operation} {obs : List Obligation}
    {ob : Obligation} (h : obligations store op = .ok obs) (hob : ob ∈ obs)
    (hdelete : ob.family = .delete) : op.Deletes ob.key := by
  obtain ⟨htouches, hfamily⟩ := of_mem_obligations h hob
  exact htouches.deletes (Operation.familyOf_eq_delete.mp (hfamily.symm.trans hdelete))

/-! ### Ids in a step -/

section Steps

variable {hooks : Hooks σ} {m : Moment} {op : Operation} {st st' : FlushState σ}
  {key : EntityKey}

/-- Calling hooks on an entity leaves all others as they are. -/
theorem get?_runHooks_of_ne {other : EntityKey} (h : key ≠ other) (phase : Phase)
    (result : Option QueryResult) (st : FlushState σ) :
    (st.runHooks hooks m phase other result).2.store.get? key = st.store.get? key := by
  rw [FlushState.runHooks]
  cases st.store.get? other with
  | none => rfl
  | some e => exact Store.get?_modify_of_ne _ h _

theorem get?_dispatchChanges_of_ne {other : EntityKey} (h : key ≠ other) (result : QueryResult)
    (st : FlushState σ) :
    (st.dispatchChanges hooks m other result).2.store.get? key = st.store.get? key := by
  rw [FlushState.dispatchChanges]
  cases st.store.get? other with
  | none => rfl
  | some e =>
    dsimp only
    split
    · rfl
    · exact Store.get?_modify_of_ne _ h _

/-- The step of an entity before the statement is about this entity only. -/
theorem get?_beforeStep_of_ne {ob : Obligation} (h : key ≠ ob.key) (st : FlushState σ) :
    (beforeStep hooks m ob st).2.store.get? key = st.store.get? key :=
  get?_runHooks_of_ne h _ _ _

theorem get?_afterStep_of_ne {ob : Obligation} (h : key ≠ ob.key) (result : QueryResult)
    (st : FlushState σ) :
    (afterStep hooks m result ob st).2.store.get? key = st.store.get? key :=
  afterStep_rel (R := fun st st' => st'.store.get? key = st.store.get? key)
    (fun _ _ _ h h' => h'.trans h) (fun _ => rfl) (fun st _ _ => get?_runHooks_of_ne h _ _ st)
    (fun st _ => get?_dispatchChanges_of_ne h _ st)
    (fun st _ => Store.get?_modify_of_ne st.store h _)
    (fun _ st => Store.get?_modify_of_ne st.store h _) result st

theorem get?_afterSteps {obs : List Obligation} (h : ∀ ob ∈ obs, key ≠ ob.key)
    (result : QueryResult) (st : FlushState σ) :
    (eachObligation (afterStep hooks m result) obs st).2.store.get? key = st.store.get? key :=
  eachObligation_rel (R := fun st st' => st'.store.get? key = st.store.get? key)
    (fun _ => rfl) (fun _ _ _ h h' => h'.trans h)
    (fun ob hob st => get?_afterStep_of_ne (h ob hob) result st) st

variable (hhooks : hooks.KeepIds)

include hhooks

omit hhooks in
theorem keepsId_afterHooks (st : FlushState σ) (other : EntityKey) (e : Entity) (run : HookRun σ)
    (he : st.store.get? other = some e) (hid : e.KeepsId run.entity) :
    st.store.KeepsId key (st.afterHooks other run).2.store := by
  refine Store.keepsId_modify fun e' he' => ?_
  obtain rfl := Option.some.inj (he.symm.trans he')
  exact hid

theorem keepsId_runHooks (phase : Phase) (other : EntityKey) (result : Option QueryResult)
    (st : FlushState σ) :
    st.store.KeepsId key (st.runHooks hooks m phase other result).2.store :=
  runHooks_rel (P := fun st st' => st.store.KeepsId key st'.store) .refl (fun _ _ _ => .trans)
    hhooks (fun _ => id) keepsId_afterHooks st phase other result

theorem keepsId_dispatchChanges (other : EntityKey) (result : QueryResult) (st : FlushState σ) :
    st.store.KeepsId key (st.dispatchChanges hooks m other result).2.store :=
  dispatchChanges_rel (P := fun st st' => st.store.KeepsId key st'.store) .refl
    (fun _ _ _ => .trans) hhooks (fun _ => id) keepsId_afterHooks st other result

theorem keepsId_afterStep {ob : Obligation} (h : ob.family = .delete → key ≠ ob.key)
    (result : QueryResult) (st : FlushState σ) :
    st.store.KeepsId key (afterStep hooks m result ob st).2.store := by
  refine afterStep_rel (R := fun st st' => st.store.KeepsId key st'.store)
    (fun _ _ _ h h' => h' ∘ h) (fun _ => id) (fun st _ _ => keepsId_runHooks hhooks _ _ _ st)
    (fun st _ => keepsId_dispatchChanges hhooks _ _ st) ?_ ?_ result st
  · intro st result
    refine Store.keepsId_modify fun e _ hid => ?_
    obtain ⟨id, hid⟩ := Option.isSome_iff_exists.mp hid
    rw [Entity.id_refresh hid]
    rfl
  · intro hdelete st hid
    rwa [FlushState.modify, Store.idOf?_modify_of_ne (h hdelete)]

/-- Up to the result of its statement an operation keeps ids. Only the phases behind the result give
and take them, so a statement that fails leaves all ids as they were. -/
theorem answersWithin_keepsId (op : Operation) (key : EntityKey) (P : Obligation → Prop) :
    AnswersWithin hooks m op P fun st st' => st.store.KeepsId key st'.store where
  refl _ := id
  trans _ _ _ h h' := h' ∘ h
  before _ _ _ := keepsId_runHooks hhooks _ _ _ (FlushState.note _ _)
  compose st hid := by rwa [idOf?_composeOperation]
  execute statement st := by
    rw [store_executeStatement]
    exact id

/-- The steps of an operation keep ids, except for entities that are deleted. -/
theorem stepsWithin_keepsId (op : Operation) (key : EntityKey) :
    StepsWithin hooks m op (fun ob => ob.family = .delete → key ≠ ob.key)
      fun st st' => st.store.KeepsId key st'.store where
  toAnswersWithin := answersWithin_keepsId hhooks op key _
  after result _ h st := keepsId_afterStep hhooks h result st
  release _ _ _ := Store.keepsId_modify fun _ _ hid => hid

omit hhooks in
/-- They do nothing to the ids of other entities. -/
theorem stepsWithin_idOf? (op : Operation) (key : EntityKey) :
    StepsWithin hooks m op (fun ob => key ≠ ob.key)
      fun st st' => st'.store.idOf? key = st.store.idOf? key where
  refl _ := rfl
  trans _ _ _ h h' := h'.trans h
  before _ h st := by rw [Store.idOf?, get?_beforeStep_of_ne h, Store.idOf?]
  compose st := idOf?_composeOperation m st.store st.names op key
  execute statement st := by rw [store_executeStatement]
  after result _ h st := by rw [Store.idOf?, get?_afterStep_of_ne h, Store.idOf?]
  release _ h _ := Store.idOf?_modify_of_ne h

/-- The step of a new entity after the statement gives it the id that came back. -/
theorem isSome_idOf?_afterStep {ob : Obligation} {result : QueryResult}
    (hcreate : ob.family = .create) {name : String} (hname : st.store.nameOf? ob.key = some name)
    (hbinds : ((result.first? name).bind GraphValue.entityParts?).isSome) :
    ((afterStep hooks m result ob st).2.store.idOf? ob.key).isSome := by
  obtain ⟨e, he, hvariable⟩ := Option.bind_eq_some_iff.mp hname
  rw [afterStep, hcreate]
  refine keepsId_runHooks hhooks _ _ _ _ ?_
  show (((st.store.modify ob.key _).get? ob.key).bind _).isSome
  rw [Store.get?_modify_self, he]
  refine Entity.isSome_id_refresh ?_
  rwa [Entity.returnedParts?, hvariable]

/-- The step of a deleted entity after the statement takes its id away, unless a hook fails. -/
theorem afterStep_delete {ob : Obligation} (hdelete : ob.family = .delete) (result : QueryResult)
    (st : FlushState σ) :
    ((afterStep hooks m result ob st).1 = .ok () ∧
        (afterStep hooks m result ob st).2.store.idOf? ob.key = none) ∨
      ((afterStep hooks m result ob st).1 ≠ .ok () ∧
        st.store.KeepsId ob.key (afterStep hooks m result ob st).2.store) := by
  have hkeeps : (st.note (.step ob.key Family.delete.after)).store.KeepsId ob.key
      ((st.note (.step ob.key Family.delete.after)).runHooks hooks m .afterDelete ob.key
        (some result)).2.store := keepsId_runHooks hhooks _ _ _ _
  rw [afterStep, hdelete]
  dsimp only
  generalize FlushState.runHooks _ hooks m .afterDelete ob.key (some result) = run at hkeeps ⊢
  obtain ⟨_ | _, st₁⟩ := run
  · exact .inr ⟨by simp, hkeeps⟩
  · refine .inl ⟨rfl, ?_⟩
    dsimp only
    rw [FlushState.modify, Store.idOf?, Store.get?_modify_self]
    cases st₁.store.get? ob.key <;> rfl

end Steps

/-! ### How far the steps have come -/

/-- What a step that is reached establishes, and later ones keep, holds in the end. -/
theorem eachObligation_of_reached {step : Obligation → FlushState σ → FlushStep σ Unit}
    {Q : FlushState σ → Prop} {before after : List Obligation} {ob : Obligation}
    {st : FlushState σ} (hbefore : (eachObligation step before st).1 = .ok ())
    (hob : Q (step ob (eachObligation step before st).2).2)
    (hafter : ∀ ob' ∈ after, ∀ st, Q st → Q (step ob' st).2) :
    Q (eachObligation step (before ++ ob :: after) st).2 := by
  rw [eachObligation_append]
  rcases hrun : eachObligation step before st with ⟨_ | _, st₁⟩
  · rw [hrun] at hbefore
    cases hbefore
  · rw [hrun] at hob
    dsimp only
    rw [eachObligation]
    rcases hstep : step ob st₁ with ⟨_ | _, st₂⟩
    · rwa [hstep] at hob
    · rw [hstep] at hob
      exact eachObligation_rel (R := fun st st' => Q st → Q st') (fun _ => id)
        (fun _ _ _ h h' => h' ∘ h) hafter st₂ hob

namespace Reply

/-- The step of the entity after the statement begins: none in front of it fails. -/
def Reached (hooks : Hooks σ) (m : Moment) (reply : Reply) (st : FlushState σ)
    (key : EntityKey) : Prop :=
  ∃ before ob after, reply.obs = before ++ ob :: after ∧ ob.key = key ∧
    (∀ ob' ∈ before, key ≠ ob'.key) ∧
    (eachObligation (afterStep hooks m reply.result) before st).1 = .ok ()

/-- The step of the entity after the statement succeeds. -/
def Finished (hooks : Hooks σ) (m : Moment) (reply : Reply) (st : FlushState σ)
    (key : EntityKey) : Prop :=
  ∃ before ob after, reply.obs = before ++ ob :: after ∧ ob.key = key ∧
    (∀ ob' ∈ before, key ≠ ob'.key) ∧
    (eachObligation (afterStep hooks m reply.result) (before ++ [ob]) st).1 = .ok ()

/-- The result binds the variable that the entity has in the given state to a node or
relationship. -/
def Binds (reply : Reply) (st : FlushState σ) (key : EntityKey) : Prop :=
  ∃ name, st.store.nameOf? key = some name ∧
    ((reply.result.first? name).bind GraphValue.entityParts?).isSome

variable {hooks : Hooks σ} {m : Moment} {op : Operation} {reply : Reply} {st st' : FlushState σ}
  {key : EntityKey}

theorem exists_first (h : ∃ ob ∈ reply.obs, ob.key = key) : ∃ before ob after,
    reply.obs = before ++ ob :: after ∧ ob.key = key ∧ ∀ ob' ∈ before, key ≠ ob'.key := by
  generalize reply.obs = obs at h
  induction obs with
  | nil => simp at h
  | cons first rest ih =>
    by_cases hfirst : first.key = key
    · exact ⟨[], first, rest, rfl, hfirst, nofun⟩
    · obtain ⟨ob, hob, hkey⟩ := h
      have hlater : ob ∈ rest := by
        rcases List.mem_cons.mp hob with rfl | hlater
        · exact absurd hkey hfirst
        · exact hlater
      obtain ⟨before, ob', after, rfl, hkey', hbefore⟩ := ih ⟨ob, hlater, hkey⟩
      exact ⟨first :: before, ob', after, rfl, hkey',
        List.forall_mem_cons.mpr ⟨fun heq => hfirst heq.symm, hbefore⟩⟩

/-- What an operation touches has a step. -/
theorem exists_of_touches (h : answerOperation hooks m op st = (.ok reply, st'))
    (htouches : op.Touches st.store key) : ∃ ob ∈ reply.obs, ob.key = key := by
  obtain ⟨-, hobs, -⟩ := answerOperation_inv h
  rw [obligations_eq hobs]
  exact ⟨_, List.mem_map_of_mem (Operation.mem_touched.mpr htouches), rfl⟩

/-- A delete has a step for its entity only. The ends of a relationship stay as they are when it is
deleted, and so do the relationships of a node. -/
theorem obs_of_deletes (h : answerOperation hooks m op st = (.ok reply, st'))
    (hdeletes : op.Deletes key) : reply.obs = [⟨key, .delete⟩] := by
  obtain ⟨rfl, hkind⟩ := hdeletes
  obtain ⟨-, hobs, -⟩ := answerOperation_inv h
  rw [obligations_eq hobs, Operation.touched]
  cases hop : op.kind with
  | save => exact absurd hop hkind
  | delete detach => simp [Operation.familyOf, hop]

/-- The only step of an operation is finished if it succeeds. -/
theorem finished_iff_of_singleton {ob : Obligation} (hobs : reply.obs = [ob]) :
    reply.Finished hooks m st ob.key ↔ (afterStep hooks m reply.result ob st).1 = .ok () := by
  have hsingle : ∀ ob, (eachObligation (afterStep hooks m reply.result) [ob] st).1 =
      (afterStep hooks m reply.result ob st).1 := by
    intro ob
    rw [eachObligation]
    rcases afterStep hooks m reply.result ob st with ⟨_ | _, st₁⟩ <;> rfl
  constructor
  · rintro ⟨before, ob', after, heq, -, -, hok⟩
    obtain ⟨rfl, rfl⟩ : before = [] ∧ ob' = ob := by
      rcases List.append_eq_cons_iff.mp (heq.symm.trans hobs) with ⟨hnil, hob⟩ | ⟨rest, -, hnil⟩
      · exact ⟨hnil, (List.cons.inj hob).1⟩
      · simp at hnil
    rwa [List.nil_append, hsingle] at hok
  · intro hok
    exact ⟨[], ob, [], hobs, rfl, List.forall_mem_nil _, (hsingle ob).trans hok⟩

/-- When the operation is carried out, all steps succeed. -/
theorem finished_of_ok {done : Option Statement × QueryResult} {st'' : FlushState σ}
    (h : settleOperation hooks m reply st = (.ok done, st''))
    (hkey : ∃ ob ∈ reply.obs, ob.key = key) :
    reply.Finished hooks m st key := by
  obtain ⟨before, ob, after, hobs, hob, hbefore⟩ := exists_first hkey
  refine ⟨before, ob, after, hobs, hob, hbefore, ?_⟩
  rw [settleOperation, hobs, List.append_cons, eachObligation_append] at h
  rcases hrun : eachObligation (afterStep hooks m reply.result) (before ++ [ob]) st with
    ⟨_ | _, st₁⟩
  · rw [hrun] at h
    cases h
  · rfl

variable (hhooks : hooks.KeepIds)

include hhooks

/-- A save gives an id to every target that came back, or leaves it the one it had, as soon as its
step is reached. -/
theorem isSome_idOf?_runOperation (h : answerOperation hooks m op st = (.ok reply, st'))
    (htargets : op.Targets st.store key) (hbinds : reply.Binds st' key)
    (hreached : (st.store.idOf? key).isSome ∨ reply.Reached hooks m st' key) :
    ((runOperation hooks m op st).2.store.idOf? key).isSome := by
  have hnodelete : ∀ obs, obligations st.store op = .ok obs →
      ∀ ob ∈ obs, ob.family = .delete → key ≠ ob.key := fun obs hobs ob hob hdelete =>
    absurd htargets.1 (deletes_of_mem_obligations hobs hob hdelete).2
  by_cases hid : (st.store.idOf? key).isSome
  · exact (stepsWithin_keepsId hhooks op key).run hnodelete hid
  obtain ⟨-, hobs, -⟩ := answerOperation_inv h
  obtain ⟨before, ob, after, heq, rfl, hbefore, hok⟩ := hreached.resolve_left hid
  have hcreate : ob.family = .create := by
    have hob : ob ∈ reply.obs := heq ▸ by simp
    rw [(of_mem_obligations hobs hob).2, Operation.familyOf, htargets.1]
    exact if_neg hid
  rw [runOperation_eq, h]
  have hafter : ((eachObligation (afterStep hooks m reply.result) reply.obs st').2.store.idOf?
      ob.key).isSome := by
    rw [heq]
    refine eachObligation_of_reached (Q := fun st => (st.store.idOf? ob.key).isSome) hok ?_ ?_
    · obtain ⟨name, hname, hparts⟩ := hbinds
      refine isSome_idOf?_afterStep hhooks hcreate ?_ hparts
      rwa [Store.nameOf?, get?_afterSteps hbefore, ← Store.nameOf?]
    · intro ob' hob' st
      refine keepsId_afterStep hhooks (hnodelete _ hobs ob' ?_) reply.result st
      rw [heq]
      simp [hob']
  show ((settleOperation hooks m reply st').2.store.idOf? ob.key).isSome
  rw [settleOperation]
  rcases hrun : eachObligation (afterStep hooks m reply.result) reply.obs st' with ⟨_ | _, st₁⟩
  · rwa [hrun] at hafter
  · rw [hrun] at hafter
    exact releaseTouched_rel (R := fun st st' => st.store.KeepsId ob.key st'.store) (fun _ => id)
      (fun _ _ _ h h' => h' ∘ h) (fun _ _ _ => Store.keepsId_modify fun _ _ hid => hid) st₁ hafter

/-- An executed delete takes the id away if its hooks succeed, and leaves it if one fails. -/
theorem idOf?_runOperation_of_deletes (h : answerOperation hooks m op st = (.ok reply, st'))
    (hdeletes : op.Deletes key) :
    (reply.Finished hooks m st' key → (runOperation hooks m op st).2.store.idOf? key = none) ∧
      (¬ reply.Finished hooks m st' key →
        st.store.KeepsId key (runOperation hooks m op st).2.store ∧
          ∃ err, (runOperation hooks m op st).1 = .error err) := by
  have hone := obs_of_deletes h hdeletes
  have hfinished : reply.Finished hooks m st' key ↔
      (afterStep hooks m reply.result ⟨key, .delete⟩ st').1 = .ok () :=
    finished_iff_of_singleton hone
  have hanswered : st.store.KeepsId key st'.store := by
    have hanswer : st.store.KeepsId key (answerOperation hooks m op st).2.store :=
      (answersWithin_keepsId hhooks op key fun _ => True).answer fun _ _ _ _ => trivial
    rwa [h] at hanswer
  rw [hfinished, runOperation_eq, h]
  dsimp only
  rw [settleOperation, hone, eachObligation]
  have hdelete : (⟨key, .delete⟩ : Obligation).family = .delete := rfl
  have hafter := afterStep_delete (m := m) hhooks hdelete reply.result st'
  generalize afterStep hooks m reply.result ⟨key, .delete⟩ st' = run at hafter ⊢
  obtain ⟨err | _, st₁⟩ := run
  · have hfailed : (Except.error err : Except MapperError Unit) ≠ .ok () := by simp
    have hkept := (hafter.resolve_left fun h => hfailed h.1).2
    exact ⟨fun hok => absurd hok hfailed, fun _ => ⟨hkept ∘ hanswered, err, rfl⟩⟩
  · have hnone := (hafter.resolve_right fun h => h.1 rfl).2
    refine ⟨fun _ => ?_, fun hnot => absurd rfl hnot⟩
    show ((st₁.store.modify key Entity.releaseVariable).get? key).bind _ = none
    rw [Store.get?_modify_self, Option.bind_map]
    exact hnone

omit hhooks in
/-- An entity whose step is not reached keeps the id, or the lack of one, that it had when the
statement was answered, and the operation fails. -/
theorem idOf?_runOperation_of_not_reached (h : answerOperation hooks m op st = (.ok reply, st'))
    (htouches : op.Touches st.store key) (hnot : ¬ reply.Reached hooks m st' key) :
    (runOperation hooks m op st).2.store.idOf? key = st'.store.idOf? key ∧
      ∃ err, (runOperation hooks m op st).1 = .error err := by
  obtain ⟨before, ob, after, heq, rfl, hbefore⟩ := exists_first (exists_of_touches h htouches)
  rw [runOperation_eq, h]
  dsimp only
  rw [settleOperation, heq, eachObligation_append]
  have hsteps : (eachObligation (afterStep hooks m reply.result) before st').2.store.get? ob.key =
      st'.store.get? ob.key := get?_afterSteps hbefore reply.result st'
  rcases hrun : eachObligation (afterStep hooks m reply.result) before st' with ⟨err | _, st₁⟩
  · rw [hrun] at hsteps
    exact ⟨by rw [Store.idOf?, hsteps, Store.idOf?], err, rfl⟩
  · exact absurd ⟨before, ob, after, heq, rfl, hbefore, congrArg Prod.fst hrun⟩ hnot

end Reply

end GraphMapping
