import GraphMapping.Proofs.Lifecycle.Calls
import GraphMapping.Proofs.Work.Identity

/-!
# The journal of a flush

The journal of a flush is put together from the journals of its turns. In each turn the steps before
the statement come first, one for every entity that the operation touches, then the statement, and
then the steps after it, for the same entities in the same order. What happens to each entity is
decided when the operation begins: it is updated if it has an id by then, and created otherwise.

A failure ends the journal, so that what was noted until then is the beginning of all this.

Hooks may edit the data of entities, but neither ids nor ends. Which hooks are called for an entity
then depends on the entity alone, and nothing else that the operation touches has a part in it, as
long as no entity is touched twice.

## Main definitions

* `Obligation.beforeEvents`, `Obligation.afterEvents`, `Turn.events`: what is to be noted.
* `Logs`: a step notes the given events up to a failure.

## Main results

* `logs_beforeStep`, `logs_afterStep`: the steps of an entity.
* `logs_eachObligation`: the steps of several entities, none of them twice.
* `logs_runOperation`: a turn.
* `journal_runOperations`: the turns of a flush.
-/

namespace GraphMapping

variable {σ : Type}

/-! ### Noted events -/

/-- From the given state the step notes the given events in order, up to a failure. -/
structure Logs {α : Type} (st : FlushState σ) (step : FlushStep σ α) (events : List Event) :
    Prop where
  noted : ∃ added, step.2.journal = st.journal ++ added ∧ added <+: events
  complete : ∀ a, step.1 = .ok a → step.2.journal = st.journal ++ events

namespace Logs

variable {α : Type} {st st' : FlushState σ} {step : FlushStep σ α} {events events' : List Event}

/-- A step that notes all of the events, whether it fails or not. -/
theorem of_journal (h : step.2.journal = st.journal ++ events) : Logs st step events :=
  ⟨⟨events, h, List.prefix_refl _⟩, fun _ _ => h⟩

/-- Nothing more is noted after a failure, whatever step it is a failure of. -/
theorem failed {β : Type} {err : MapperError}
    (h : Logs st ((.error err, st') : FlushStep σ α) events) (events' : List Event) :
    Logs st ((.error err, st') : FlushStep σ β) (events ++ events') := by
  obtain ⟨added, hjournal, hfront⟩ := h.noted
  exact ⟨⟨added, hjournal, hfront.trans (List.prefix_append _ _)⟩, fun _ => nofun⟩

/-- A step that fails before it notes anything. -/
theorem of_error {err : MapperError} (h : st'.journal = st.journal) (events : List Event) :
    Logs st ((.error err, st') : FlushStep σ α) events :=
  ⟨⟨[], h.trans (List.append_nil _).symm, List.nil_prefix⟩, fun _ => nofun⟩

theorem seq (h : st'.journal = st.journal ++ events) (h' : Logs st' step events') :
    Logs st step (events ++ events') := by
  obtain ⟨added, hjournal, hfront⟩ := h'.noted
  refine ⟨⟨events ++ added, ?_, (List.prefix_append_right_inj _).mpr hfront⟩, fun a hok => ?_⟩
  · rw [hjournal, h, List.append_assoc]
  · rw [h'.complete a hok, h, List.append_assoc]

theorem congr {β : Type} {step' : FlushStep σ β} (h : Logs st step events)
    (hjournal : step'.2.journal = step.2.journal)
    (hok : ∀ b, step'.1 = .ok b → ∃ a, step.1 = .ok a) : Logs st step' events := by
  refine ⟨hjournal ▸ h.noted, fun b hb => ?_⟩
  obtain ⟨a, ha⟩ := hok b hb
  rw [hjournal, h.complete a ha]

theorem error {β : Type} {err : MapperError}
    (h : Logs st ((.error err, st') : FlushStep σ α) events) :
    Logs st ((.error err, st') : FlushStep σ β) events :=
  h.congr rfl fun _ => nofun

end Logs

/-! ### Steps of an entity -/

/-- What is to be noted of the step of an entity before the statement. -/
def Obligation.beforeEvents (hooks : Hooks σ) (store : Store) (ob : Obligation) : List Event :=
  .step ob.key ob.family.before :: ((store.get? ob.key).elim [] fun e =>
    hooks.handlesOf ob.family.before e.typeName).map .called

/-- What is to be noted of its step after the statement: an updated entity reports its changes
first. -/
def Obligation.afterEvents (hooks : Hooks σ) (m : Moment) (store : Store) (ob : Obligation) :
    List Event :=
  .step ob.key ob.family.after :: ((store.get? ob.key).elim [] fun e =>
    (match ob.family with
      | .update => hooks.reporting e.typeName ((e.changed m).toList.map Prod.fst)
      | .create | .delete => []) ++ hooks.handlesOf ob.family.after e.typeName).map .called

section Steps

variable {hooks : Hooks σ} {m : Moment} {st : FlushState σ} {ob : Obligation} {key : EntityKey}
  {e : Entity}

theorem logs_afterHooks {run : HookRun σ} {handles : List HookHandle} (h : run.Calls handles) :
    Logs st (st.afterHooks key run) (handles.map .called) :=
  ⟨⟨run.called.map .called, rfl, h.called.map _⟩, fun u hok => by
    rw [FlushState.afterHooks, h.complete hok]⟩

variable (hhooks : hooks.Within Entity.Edits)

include hhooks

theorem logs_runHooks (he : st.store.get? key = some e) (phase : Phase)
    (result : Option QueryResult) :
    Logs st (st.runHooks hooks m phase key result)
      ((hooks.handlesOf phase e.typeName).map .called) := by
  simp only [FlushState.runHooks, he]
  exact logs_afterHooks (Hooks.calls_run (fun _ _ => (·.typeName)) hhooks phase e result st.app)

/-- Before the statement the hooks for the phase are called. -/
theorem logs_beforeStep (hstored : (st.store.get? ob.key).isSome) :
    Logs st (beforeStep hooks m ob st) (ob.beforeEvents hooks st.store) := by
  obtain ⟨e, he⟩ := Option.isSome_iff_exists.mp hstored
  rw [Obligation.beforeEvents, he, Option.elim_some]
  have he₁ : (st.note (.step ob.key ob.family.before)).store.get? ob.key = some e := he
  have hnoted : (st.note (.step ob.key ob.family.before)).journal =
      st.journal ++ [.step ob.key ob.family.before] := rfl
  have hlogs := Logs.seq hnoted (logs_runHooks (m := m) hhooks he₁ ob.family.before none)
  exact hlogs

/-- Dispatching changes calls what is registered for the changed fields. -/
theorem logs_dispatchChanges (he : st.store.get? key = some e) (result : QueryResult) :
    Logs st (st.dispatchChanges hooks m key result)
        ((hooks.reporting e.typeName ((e.changed m).toList.map Prod.fst)).map .called) ∧
      ∃ e', (st.dispatchChanges hooks m key result).2.store.get? key = some e' ∧
        e'.typeName = e.typeName := by
  simp only [FlushState.dispatchChanges, he]
  split
  · rename_i hempty
    have hnone : (e.changed m).toList = [] := List.isEmpty_iff.mp hempty
    refine ⟨.of_journal ?_, e, he, rfl⟩
    rw [hnone]
    exact (List.append_nil _).symm
  · have hcalls := Hooks.calls_dispatch (m := m) (fun _ _ => (·.typeName)) hhooks e (e.changed m)
      (some result) st.app
    have hkept := hhooks.dispatch (m := m) .refl (fun _ _ _ => .trans) e (e.changed m)
      (some result) st.app
    exact ⟨logs_afterHooks hcalls, _, Store.get?_modify_of_get? he _, hkept.typeName⟩

/-- After the statement an updated entity reports its changes, and then the hooks for the phase are
called. -/
theorem logs_afterStep (hstored : (st.store.get? ob.key).isSome) (result : QueryResult) :
    Logs st (afterStep hooks m result ob st) (ob.afterEvents hooks m st.store) := by
  obtain ⟨e, he⟩ := Option.isSome_iff_exists.mp hstored
  have hnoted : (st.note (.step ob.key ob.family.after)).journal =
      st.journal ++ [.step ob.key ob.family.after] := rfl
  have he₁ : (st.note (.step ob.key ob.family.after)).store.get? ob.key = some e := he
  rw [Obligation.afterEvents, he, Option.elim_some, afterStep]
  rw [← List.singleton_append]
  refine Logs.seq hnoted ?_
  generalize st.note (.step ob.key ob.family.after) = st₁ at he₁
  cases ob.family with
  | create =>
    have he₂ : (st₁.modify ob.key (Entity.refresh · m result)).store.get? ob.key =
        some (e.refresh m result) := Store.get?_modify_of_get? he₁ _
    have htype : (e.refresh m result).typeName = e.typeName := by
      rw [Entity.refresh]
      split <;> rfl
    have hlogs := logs_runHooks (m := m) hhooks he₂ .afterCreate (some result)
    rw [htype] at hlogs
    exact ⟨hlogs.noted, hlogs.complete⟩
  | update =>
    obtain ⟨hchanges, e', he', htype⟩ := logs_dispatchChanges (m := m) hhooks he₁ result
    rw [List.map_append]
    dsimp only
    rcases hrun : st₁.dispatchChanges hooks m ob.key result with ⟨err | _, st₂⟩
    · rw [hrun] at hchanges
      exact hchanges.failed _
    · rw [hrun] at hchanges he'
      refine Logs.seq (hchanges.complete () rfl) ?_
      have hlogs := logs_runHooks (m := m) hhooks he' .afterUpdate (some result)
      rw [htype] at hlogs
      dsimp only
      rcases hrun : st₂.runHooks hooks m .afterUpdate ob.key (some result) with ⟨err | _, st₃⟩
      · rw [hrun] at hlogs
        exact hlogs.error
      · rw [hrun] at hlogs
        exact hlogs.congr rfl fun _ _ => ⟨(), rfl⟩
  | delete =>
    have hlogs := logs_runHooks (m := m) hhooks he₁ .afterDelete (some result)
    dsimp only
    rcases hrun : st₁.runHooks hooks m .afterDelete ob.key (some result) with ⟨err | _, st₂⟩
    · rw [hrun] at hlogs
      exact hlogs.error
    · rw [hrun] at hlogs
      exact hlogs.congr rfl fun _ _ => ⟨(), rfl⟩

end Steps

/-! ### What edits leave alone -/

/-- No entity is added or removed, and each is the same as far as the function can tell. -/
def Store.Keeps {β : Type} (g : Entity → β) (store store' : Store) : Prop :=
  ∀ key, (store'.get? key).map g = (store.get? key).map g

namespace Store.Keeps

variable {β : Type} {g : Entity → β} {store store' store'' : Store}

theorem refl (store : Store) : Keeps g store store := fun _ => rfl

theorem trans (h : Keeps g store store') (h' : Keeps g store' store'') : Keeps g store store'' :=
  fun key => (h' key).trans (h key)

theorem modify {key : EntityKey} {f : Entity → Entity}
    (h : ∀ e, store.get? key = some e → g (f e) = g e) : Keeps g store (store.modify key f) := by
  intro other
  by_cases hother : other = key
  · subst hother
    rw [get?_modify_self, Option.map_map]
    cases he : store.get? other with
    | none => rfl
    | some e => exact congrArg some (h e he)
  · rw [get?_modify_of_ne store hother]

theorem of_naming {names names' : Names} (hrelease : ∀ e, g e.releaseVariable = g e)
    (h : Naming store names store' names') : Keeps g store store' := by
  intro key
  have hread := congrArg (fun store => (store.get? key).map g) h.same
  simpa [Store.get?_releaseVariables, Function.comp_def, hrelease] using hread

theorem isSome_get? (h : Keeps g store store') (key : EntityKey) :
    (store'.get? key).isSome = (store.get? key).isSome := by
  have hkept := congrArg Option.isSome (h key)
  simpa only [Option.isSome_map] using hkept

theorem idOf? (h : Keeps Entity.id store store') (key : EntityKey) :
    store'.idOf? key = store.idOf? key := by
  have hkept := congrArg (Option.bind · fun id => id) (h key)
  rwa [Option.bind_map, Option.bind_map] at hkept

theorem touched (h : Keeps Entity.shape store store') (op : Operation) :
    op.touched store' = op.touched store := by
  have hshape := h op.key
  simp only [Operation.touched]
  cases op.kind with
  | delete detach => rfl
  | save =>
    cases he : store.get? op.key with
    | none =>
      rw [he, Option.map_none, Option.map_eq_none_iff] at hshape
      rw [hshape]
    | some e =>
      rw [he] at hshape
      obtain ⟨e', he', heq⟩ := Option.map_eq_some_iff.mp hshape
      rw [he', Option.elim_some, Option.elim_some, Entity.endpointKeys_congr heq]

end Store.Keeps

section Keeps

variable {β : Type} {g : Entity → β} {hooks : Hooks σ} {m : Moment}
  (hhooks : hooks.Within Entity.Edits)
  (hg : ∀ e e', Entity.Edits e e' → g e' = g e)

include hhooks hg

omit hhooks in
theorem keeps_afterHooks (st : FlushState σ) (key : EntityKey) (e : Entity) (run : HookRun σ)
    (he : st.store.get? key = some e) (hedits : e.Edits run.entity) :
    Store.Keeps g st.store (st.afterHooks key run).2.store := by
  refine .modify fun e' he' => ?_
  obtain rfl := Option.some.inj (he.symm.trans he')
  exact hg _ _ hedits

theorem keeps_runHooks (st : FlushState σ) (phase : Phase) (key : EntityKey)
    (result : Option QueryResult) :
    Store.Keeps g st.store (st.runHooks hooks m phase key result).2.store :=
  runHooks_rel (P := fun st st' => Store.Keeps g st.store st'.store) .refl (fun _ _ _ => .trans)
    hhooks (fun _ => .refl _) (keeps_afterHooks hg) st phase key result

theorem keeps_dispatchChanges (st : FlushState σ) (key : EntityKey) (result : QueryResult) :
    Store.Keeps g st.store (st.dispatchChanges hooks m key result).2.store :=
  dispatchChanges_rel (P := fun st st' => Store.Keeps g st.store st'.store) .refl
    (fun _ _ _ => .trans) hhooks (fun _ => .refl _) (keeps_afterHooks hg) st key result

/-- Up to the result of its statement an operation changes nothing but data and variables. -/
theorem answersWithin_keeps (hrelease : ∀ e, g e.releaseVariable = g e) (op : Operation) :
    AnswersWithin hooks m op (fun _ => True) fun st st' => Store.Keeps g st.store st'.store where
  refl _ := .refl _
  trans _ _ _ := .trans
  before _ _ st := keeps_runHooks hhooks hg (st.note _) _ _ _
  compose st := .of_naming hrelease (composeOperation_hands_out m st.store st.names op)
  execute statement st := by
    rw [store_executeStatement]
    exact .refl _

omit hg in
/-- An operation leaves all shapes alone. -/
theorem stepsWithin_keeps_shape (op : Operation) : StepsWithin hooks m op (fun _ => True)
    fun st st' => Store.Keeps Entity.shape st.store st'.store where
  toAnswersWithin := answersWithin_keeps hhooks (fun _ _ => (·.shape)) (fun _ => rfl) op
  after result _ _ st := by
    refine afterStep_rel (R := fun st st' => Store.Keeps Entity.shape st.store st'.store)
      (fun _ _ _ => .trans) (fun _ => .refl _)
      (fun st _ _ => keeps_runHooks hhooks (fun _ _ => (·.shape)) st _ _ _)
      (fun st _ => keeps_dispatchChanges hhooks (fun _ _ => (·.shape)) st _ _)
      (fun st result => .modify fun e _ => ?_) (fun _ _ => .modify fun _ _ => rfl) result st
    rw [Entity.refresh]
    split <;> rfl
  release _ _ _ := .modify fun _ _ => rfl

end Keeps

/-! ### Steps of several entities -/

/-- When no entity has two steps, each of them notes what is to be noted of its entity as it was in
the beginning. -/
theorem logs_eachObligation {step : Obligation → FlushState σ → FlushStep σ Unit}
    {events : Store → Obligation → List Event}
    (hevents : ∀ ob store store', store.get? ob.key = store'.get? ob.key →
      events store ob = events store' ob)
    (hframe : ∀ ob st key, key ≠ ob.key → (step ob st).2.store.get? key = st.store.get? key)
    (hstep : ∀ ob st, (st.store.get? ob.key).isSome → Logs st (step ob st) (events st.store ob))
    {obs : List Obligation} (hnodup : (obs.map (·.key)).Nodup) {st : FlushState σ}
    (hstored : ∀ ob ∈ obs, (st.store.get? ob.key).isSome) :
    Logs st (eachObligation step obs st) (obs.flatMap (events st.store)) := by
  induction obs generalizing st with
  | nil => exact .of_journal (List.append_nil _).symm
  | cons ob rest ih =>
    rw [List.map_cons, List.nodup_cons] at hnodup
    obtain ⟨hfirst, hrest⟩ := List.forall_mem_cons.mp hstored
    have hlogs := hstep ob st hfirst
    have hne : ∀ ob' ∈ rest, ob'.key ≠ ob.key := fun ob' hob' heq =>
      hnodup.1 (heq ▸ List.mem_map_of_mem hob')
    rw [eachObligation, List.flatMap_cons]
    rcases hrun : step ob st with ⟨err | _, st₁⟩
    · rw [hrun] at hlogs
      exact hlogs.failed _
    · rw [hrun] at hlogs
      have hsame : ∀ ob' ∈ rest, st₁.store.get? ob'.key = st.store.get? ob'.key := by
        intro ob' hob'
        have hframed := hframe ob st ob'.key (hne ob' hob')
        rwa [hrun] at hframed
      refine Logs.seq (hlogs.complete () rfl) ?_
      have hlater : rest.flatMap (events st.store) = rest.flatMap (events st₁.store) :=
        List.flatMap_congr fun ob' hob' => hevents ob' _ _ (hsame ob' hob').symm
      rw [hlater]
      exact ih hnodup.2 fun ob' hob' => by rw [hsame ob' hob']; exact hrest ob' hob'

/-! ### Turns -/

namespace Turn

variable (hooks : Hooks σ) (m : Moment) (t : Turn σ)

/-- What the operation touches when it begins, and what happens to it. -/
def targets : List Obligation :=
  (t.op.touched t.state.store).map fun key => ⟨key, t.op.familyOf t.state.store key⟩

/-- The statement that is executed, if there is one. -/
def statement? : Option Statement := (execution? hooks m t.op t.state).map (·.statement)

/-- The store when the statement has been answered. -/
def answered : Store := (answerOperation hooks m t.op t.state).2.store

/-- What is to be noted: the steps before the statement, the statement, and the steps after it. -/
def events : List Event :=
  t.targets.flatMap (Obligation.beforeEvents hooks t.state.store) ++
    ((t.statement? hooks m).toList.map .executed ++
      t.targets.flatMap (Obligation.afterEvents hooks m (t.answered hooks m)))

end Turn

section Turns

variable {hooks : Hooks σ} {m : Moment} {t : Turn σ} {st : FlushState σ}

theorem logs_executeStatement (statement : Option Statement) (st : FlushState σ) :
    Logs st (executeStatement statement st) (statement.toList.map .executed) := by
  cases statement with
  | none => exact .of_journal (List.append_nil _).symm
  | some s => exact .of_journal rfl

variable (hhooks : hooks.Within Entity.Edits)

include hhooks

/-- A turn that comes to the steps after the statement has executed one, unless it deletes an entity
that had no id when it began. -/
theorem statement?_of_answer {reply : Reply}
    (h : answerOperation hooks m t.op t.state = (.ok reply, st)) :
    t.statement? hooks m = reply.statement ∧
      (reply.statement = none ↔ t.op.kind ≠ .save ∧ t.state.store.idOf? t.op.key = none) := by
  obtain ⟨st₁, hobs, hbefore, houtcome, -⟩ := answerOperation_inv h
  constructor
  · rw [Turn.statement?, execution?, hobs]
    simp only [hbefore, houtcome]
    cases reply.statement <;> rfl
  · have hids : Store.Keeps Entity.id t.state.store
        (eachObligation (beforeStep hooks m) reply.obs t.state).2.store :=
      eachObligation_rel (R := fun st st' => Store.Keeps Entity.id st.store st'.store)
        (fun _ => .refl _) (fun _ _ _ => .trans)
        (fun ob _ st => (answersWithin_keeps hhooks (fun _ _ => (·.id)) (fun _ => rfl)
          t.op).before ob trivial st) t.state
    rw [hbefore] at hids
    rw [← hids.idOf?]
    exact unneeded_iff houtcome

variable (hnodup : (t.op.touched t.state.store).Nodup)

include hnodup

/-- Up to the result of the statement, the steps before it and the statement are noted. -/
theorem logs_answerOperation : Logs t.state (answerOperation hooks m t.op t.state)
    (t.targets.flatMap (Obligation.beforeEvents hooks t.state.store) ++
      (t.statement? hooks m).toList.map .executed) := by
  rw [Turn.statement?, execution?, answerOperation]
  cases hobs : obligations t.state.store t.op with
  | error err => exact .of_error rfl _
  | ok obs =>
    obtain ⟨hkeys, hstored⟩ := obligations_ok hobs
    obtain rfl : obs = t.targets := obligations_eq hobs
    have hbefore : Logs t.state (eachObligation (beforeStep hooks m) t.targets t.state)
        (t.targets.flatMap (Obligation.beforeEvents hooks t.state.store)) :=
      logs_eachObligation (fun ob store store' heq => by simp only [Obligation.beforeEvents, heq])
        (fun ob st key hne => get?_beforeStep_of_ne hne st)
        (fun ob st hstored => logs_beforeStep hhooks hstored) (hkeys ▸ hnodup)
        fun ob hob => (hstored ob hob).1
    dsimp only
    rcases hrun : eachObligation (beforeStep hooks m) t.targets t.state with ⟨err | _, st₁⟩
    · rw [hrun] at hbefore
      exact hbefore.failed _
    · rw [hrun] at hbefore
      refine Logs.seq (hbefore.complete () rfl) ?_
      dsimp only
      cases houtcome : (composeOperation m st₁.store st₁.names t.op).outcome with
      | error err =>
        refine .of_error ?_ _
        rfl
      | ok statement =>
        have hadded : (((Except.ok statement : Except MapperError _).toOption.join.map
            (Execution.mk t.op st₁.store st₁.names)).map Execution.statement) = statement := by
          cases statement <;> rfl
        rw [hadded]
        have hexecuted := logs_executeStatement statement { st₁ with
          store := (composeOperation m st₁.store st₁.names t.op).store
          names := (composeOperation m st₁.store st₁.names t.op).names }
        have hexecuted' : Logs st₁ (executeStatement statement { st₁ with
            store := (composeOperation m st₁.store st₁.names t.op).store
            names := (composeOperation m st₁.store st₁.names t.op).names })
            (statement.toList.map .executed) := ⟨hexecuted.noted, hexecuted.complete⟩
        dsimp only
        rcases hexecute : executeStatement statement _ with ⟨err | result, st₂⟩
        · rw [hexecute] at hexecuted'
          exact hexecuted'.error
        · rw [hexecute] at hexecuted'
          exact hexecuted'.congr rfl fun _ _ => ⟨result, rfl⟩

/-- A turn notes its events, up to a failure. Which events these are is told by the operation and
the shapes beforehand, without carrying anything out. -/
theorem logs_runOperation :
    Logs t.state (runOperation hooks m t.op t.state) (t.events hooks m) := by
  have hanswer := logs_answerOperation (m := m) hhooks hnodup
  rw [Turn.events, ← List.append_assoc, runOperation_eq, Turn.answered]
  rcases hrun : answerOperation hooks m t.op t.state with ⟨err | reply, st₁⟩
  · rw [hrun] at hanswer
    exact hanswer.failed _
  · rw [hrun] at hanswer
    refine Logs.seq (hanswer.complete reply rfl) ?_
    obtain ⟨st₀, hobs, -, -, -⟩ := answerOperation_inv hrun
    obtain ⟨hkeys, hstored⟩ := obligations_ok hobs
    have htargets : reply.obs = t.targets := obligations_eq hobs
    have hafter : Logs st₁ (eachObligation (afterStep hooks m reply.result) t.targets st₁)
        (t.targets.flatMap (Obligation.afterEvents hooks m st₁.store)) := by
      refine logs_eachObligation
        (fun ob store store' heq => by simp only [Obligation.afterEvents, heq])
        (fun ob st key hne => get?_afterStep_of_ne hne reply.result st)
        (fun ob st hstored => logs_afterStep hhooks hstored reply.result)
        (htargets ▸ hkeys ▸ hnodup) fun ob hob => ?_
      have hshapes : Store.Keeps Entity.shape t.state.store
          (answerOperation hooks m t.op t.state).2.store :=
        (stepsWithin_keeps_shape hhooks t.op).answer fun _ _ _ _ => trivial
      rw [hrun] at hshapes
      rw [hshapes.isSome_get?]
      exact (hstored ob (htargets ▸ hob)).1
    dsimp only
    rw [settleOperation, htargets]
    rcases hrun : eachObligation (afterStep hooks m reply.result) t.targets st₁ with ⟨err | _, st₂⟩
    · rw [hrun] at hafter
      exact hafter.error
    · rw [hrun] at hafter
      refine hafter.congr ?_ fun _ _ => ⟨(), rfl⟩
      dsimp only
      rw [releaseTouched_eq]

end Turns

/-! ### Flushes -/

/-- A flush notes the events of its turns. If one fails, it is the last one, and its events are
noted up to the failure. -/
theorem journal_runOperations {hooks : Hooks σ} {m : Moment} {ops : List Operation}
    {st : FlushState σ} (hhooks : hooks.Within Entity.Edits)
    (hnodup : ∀ t ∈ turns hooks m ops st, (t.op.touched t.state.store).Nodup)
    (response : Response) :
    (∀ response', (runOperations hooks m ops response st).1 = .ok response' →
      (runOperations hooks m ops response st).2.journal =
        st.journal ++ (turns hooks m ops st).flatMap (Turn.events hooks m)) ∧
    ∀ err, (runOperations hooks m ops response st).1 = .error err →
      ∃ earlier last part, turns hooks m ops st = earlier ++ [last] ∧
        (runOperations hooks m ops response st).2.journal =
          st.journal ++ (earlier.flatMap (Turn.events hooks m) ++ part) ∧
        part <+: last.events hooks m ∧
        (runOperation hooks m last.op last.state).1 = .error err := by
  induction ops generalizing response st with
  | nil => exact ⟨fun _ _ => (List.append_nil _).symm, fun _ hfailed => by cases hfailed⟩
  | cons op rest ih =>
    rw [turns] at hnodup
    obtain ⟨hfirst, hrest⟩ := List.forall_mem_cons.mp hnodup
    have hlogs : Logs st (runOperation hooks m op st) (Turn.events hooks m ⟨op, st⟩) :=
      logs_runOperation (t := ⟨op, st⟩) hhooks hfirst
    rw [runOperations, turns]
    rcases hrun : runOperation hooks m op st with ⟨err | ⟨statement, result⟩, st₁⟩
    · rw [hrun] at hlogs
      obtain ⟨part, hjournal, hfront⟩ := hlogs.noted
      refine ⟨fun response' hok => ?_,
        fun err' hfailed => ⟨[], ⟨op, st⟩, part, rfl, hjournal, hfront, ?_⟩⟩
      · cases hok
      · obtain rfl := Except.error.inj hfailed
        exact congrArg Prod.fst hrun
    · rw [hrun] at hlogs hrest
      have hjournal := hlogs.complete _ rfl
      obtain ⟨hok, herror⟩ := ih hrest (response.add op statement result)
      refine ⟨fun response' hdone => ?_, fun err hfailed => ?_⟩
      · rw [List.flatMap_cons, ← List.append_assoc, ← hjournal]
        exact hok response' hdone
      · obtain ⟨earlier, last, part, hturns, hpart, hlast⟩ := herror err hfailed
        refine ⟨⟨op, st⟩ :: earlier, last, part, congrArg (_ :: ·) hturns, ?_, hlast⟩
        rw [List.flatMap_cons, List.append_assoc, ← List.append_assoc st.journal, ← hjournal]
        exact hpart

end GraphMapping
