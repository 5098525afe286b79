import GraphMapping.Proofs.Mapper.Actions
import GraphMapping.Proofs.Work.Replay

/-!
# Flushes do not depend on history

However a flush ends and whatever its hooks do, nothing is pending afterwards, the counters for
names begin anew and no entity has a variable. Only a request can change this: creating, editing,
loading and looking at statements leave a mapper as pristine as it is.

So nothing of the past is left but the entities themselves. Two mappers whose entities are equal may
have come to them in different ways, by other flushes, failed ones among them, by loading or by
creating. If they are pristine, the same edits and requests lead both to the same pending work, and
without hooks the next flush executes the same statements and leaves the same entities.

## Main definitions

* `Mapper.Pristine`: nothing is pending, no name is handed out and no entity has a variable.
* `Mapper.Rested`: nothing was scheduled since the beginning, or since the last flush.
* `Mapper.Preparation`, `Mapper.prepareAll`: what comes before a flush.
* `Mapper.SendsAlike`: two flushes cannot be told apart.

## Main results

* `Mapper.pristine_send`, `Mapper.Rested.pristine`: a flush leaves a mapper pristine, and it stays
  so until something is scheduled.
* `Mapper.send_isolated`: from then on only the entities matter.
-/

namespace GraphMapping

variable {σ σ' : Type}

theorem Store.releaseVariables_eq_self {store : Store} (h : ∀ key, store.nameOf? key = none) :
    store.releaseVariables = store := by
  refine Store.ext_get? fun key => ?_
  rw [Store.get?_releaseVariables]
  cases he : store.get? key with
  | none => rfl
  | some e =>
    have hunbound : e.queryVariable = none := by
      have hnone := h key
      rwa [Store.nameOf?, he] at hnone
    exact congrArg some (Entity.eq_of_releaseVariable rfl hunbound.symm)

namespace Mapper

variable {mapper : Mapper σ} {m : Moment}

/-! ### Pristine mappers -/

/-- Nothing is pending, no name is handed out and no entity has a variable. -/
structure Pristine (mapper : Mapper σ) : Prop extends mapper.Settled where
  names : mapper.work.names = .fresh

theorem pristine_new (settings : MapperSettings) (connection : Connection) (app : σ) :
    (new settings connection app).Pristine :=
  ⟨settled_new settings connection app, rfl⟩

/-- A flush leaves a mapper pristine, whatever was pending, whatever the hooks do, and whether it
succeeds. This is stronger than what single operations guarantee: one that fails leaves its
variables behind, and they are taken back at the end. -/
theorem pristine_send (mapper : Mapper σ) (m : Moment) : (mapper.send m).2.Pristine :=
  ⟨settled_send mapper m, rfl⟩

theorem Pristine.work (h : mapper.Pristine) : mapper.work = .empty := by
  have heta : mapper.work = ⟨mapper.work.operations, mapper.work.names⟩ := rfl
  rw [heta, h.operations, h.names]
  rfl

/-- Only the pending work and the variables matter. Entities may change freely, and what hooks are
registered makes no difference. -/
theorem Pristine.congr {mapper' : Mapper σ} (h : mapper.Pristine)
    (hwork : mapper'.work = mapper.work)
    (hnames : ∀ key, mapper'.store.nameOf? key = mapper.store.nameOf? key) : mapper'.Pristine :=
  ⟨⟨hwork ▸ h.operations, fun key => (hnames key).trans (h.nameOf? key)⟩, hwork ▸ h.names⟩

theorem Pristine.of_reads {mapper' : Mapper σ} (h : mapper.Pristine)
    (hreads : mapper.Reads mapper') : mapper'.Pristine := by
  refine ⟨⟨hreads.work ▸ h.operations, ?_⟩, hreads.work ▸ h.names⟩
  refine hreads.store (fun store => ∀ key, store.nameOf? key = none) ?_ ?_ h.nameOf?
  · intro store e hunbound hstore key
    rw [Store.nameOf?_insert hunbound]
    exact hstore key
  · intro store changed f hf hstore key
    rw [Store.nameOf?_edit store ⟨f, fun e => (hf e).queryVariable⟩ changed key]
    exact hstore key

/-- Every action that schedules nothing leaves a mapper pristine. -/
theorem Pristine.act (h : mapper.Pristine) {action : Action σ}
    (haction : ∀ r, action ≠ .request r) : (mapper.act action).Pristine := by
  cases action with
  | request r => exact absurd rfl (haction r)
  | register schema => exact h.congr rfl fun _ => rfl
  | on typeName phase call hcall => exact h.congr rfl fun _ => rfl
  | onChanged typeName field call hcall => exact h.congr rfl fun _ => rfl
  | removeHook handle => exact h.congr rfl fun _ => rfl
  | create typeName kind new =>
    rw [Mapper.act]
    cases hcreate : mapper.create typeName kind new with
    | error err => exact h
    | ok created =>
      obtain ⟨key, mapper'⟩ := created
      obtain ⟨e, hnew, rfl⟩ := create_ok hcreate
      exact h.congr rfl (Store.nameOf?_insert (Schema.queryVariable_instantiate hnew))
  | edit key revision =>
    let edit : Edit := ⟨revision.change, fun e => (revision.keeps e).queryVariable⟩
    exact h.congr rfl (mapper.store.nameOf?_edit edit key)
  | queries m =>
    rw [Mapper.act, queries_untouched]
    exact h
  | send m => exact pristine_send mapper m
  | getById m id kind => exact h.of_reads (.read mapper m (.getById id kind))
  | related m key traversal other =>
    exact h.of_reads (.read mapper m (.related key traversal other))
  | query m statement => exact h.of_reads (.read mapper m (.query statement))

/-- Nothing was scheduled since the beginning, or since the last flush, which may have been that of
any mapper. Hooks may be registered and taken back at any time. -/
inductive Rested : Mapper σ → Prop
  | new (settings : MapperSettings) (connection : Connection) (app : σ) :
    Rested (new settings connection app)
  | sent (mapper : Mapper σ) (m : Moment) : Rested (mapper.send m).2
  | acted {mapper : Mapper σ} (h : Rested mapper) {action : Action σ}
    (haction : ∀ r, action ≠ .request r) : Rested (mapper.act action)
  | hooked {mapper : Mapper σ} (h : Rested mapper) (hooks : Hooks σ) :
    Rested { mapper with hooks }

theorem Rested.pristine (h : mapper.Rested) : mapper.Pristine := by
  induction h with
  | new settings connection app => exact pristine_new settings connection app
  | sent mapper m => exact pristine_send mapper m
  | acted h haction ih => exact ih.act haction
  | hooked h hooks ih => exact ih.congr rfl fun _ => rfl

/-! ### Before a flush -/

/-- What comes before a flush: a request, or any change of an entity. -/
inductive Preparation where
  | request (r : Request)
  | edit (key : EntityKey) (change : Entity → Entity)

/-- The mapper after a preparation. A request that is refused changes nothing. -/
def prepare (mapper : Mapper σ) : Preparation → Mapper σ
  | .request r => (mapper.request r).toOption.getD mapper
  | .edit key change => { mapper with store := mapper.store.modify key change }

/-- The mapper after some preparations. -/
def prepareAll (mapper : Mapper σ) (preparations : List Preparation) : Mapper σ :=
  preparations.foldl prepare mapper

/-- Two mappers, of any two applications, agree on what a flush without hooks depends on. -/
structure Alike (a : Mapper σ) (b : Mapper σ') : Prop where
  store : a.store = b.store
  work : a.work = b.work
  answers : a.connection.answers = b.connection.answers
  hooks : a.hooks.size = 0
  hooks' : b.hooks.size = 0

namespace Alike

variable {a : Mapper σ} {b : Mapper σ'}

theorem prepare (h : a.Alike b) (preparation : Preparation) :
    (a.prepare preparation).Alike (b.prepare preparation) := by
  cases preparation with
  | edit key change =>
    exact ⟨congrArg (Store.modify · key change) h.store, h.work, h.answers, h.hooks, h.hooks'⟩
  | request r =>
    rw [Mapper.prepare, Mapper.prepare, request_eq, request_eq, ← h.work, ← h.store]
    cases r.apply a.work a.store with
    | error err => exact h
    | ok p => exact ⟨rfl, rfl, h.answers, h.hooks, h.hooks'⟩

theorem prepareAll (h : a.Alike b) (preparations : List Preparation) :
    (a.prepareAll preparations).Alike (b.prepareAll preparations) := by
  induction preparations generalizing a b with
  | nil => exact h
  | cons preparation rest ih => exact ih (h.prepare preparation)

end Alike

/-! ### Two flushes -/

/-- Two flushes execute the same statements, have the same outcome and end in the same store. -/
structure SendsAlike (a : Mapper σ) (b : Mapper σ') (m : Moment) : Prop where
  executed : a.executed m = b.executed m
  outcome : (a.send m).1 = (b.send m).1
  store : (a.send m).2.store = (b.send m).2.store

theorem Alike.send {a : Mapper σ} {b : Mapper σ'} (h : a.Alike b) (m : Moment) :
    a.SendsAlike b m := by
  have hbefore : a.beforeFlush.Alike b.beforeFlush :=
    ⟨h.store, congrArg Work.names h.work, h.answers, rfl⟩
  have hends : EndsAlike (runOperations a.hooks m a.work.operations {} a.beforeFlush)
      (runOperations b.hooks m b.work.operations {} b.beforeFlush) := by
    rw [← h.work]
    exact hbefore.runOperations h.hooks h.hooks' a.work.operations {}
  constructor
  case executed => exact congrArg (List.filterMap Event.statement?) hends.state.journal
  case outcome => exact hends.outcome
  case store => exact congrArg Store.releaseVariables hends.state.store

/-- **Flushes do not depend on history.** After any flush, successful or not and with any hooks,
nothing is pending, the counters for names begin anew and no entity has a variable. So let nothing
have been scheduled on two mappers since their last flush or since they were made, whatever else was
done with them, and let their entities be equal, variables apart. If then the same edits and
requests are made on both and there are no hooks, the next flush executes the same statements on
both when it gets the same answers, and both end with equal stores. -/
theorem send_isolated :
    (∀ (mapper : Mapper σ) (m : Moment), (mapper.send m).2.Pristine) ∧
      ∀ (a : Mapper σ) (b : Mapper σ'), a.Rested → b.Rested →
        a.store.releaseVariables = b.store.releaseVariables →
        a.connection.answers = b.connection.answers → a.hooks.size = 0 → b.hooks.size = 0 →
        ∀ preparations m, (a.prepareAll preparations).SendsAlike (b.prepareAll preparations) m := by
  refine ⟨pristine_send, fun a b ha hb hstores hanswers hhooks hhooks' preparations m => ?_⟩
  have hpristine := ha.pristine
  have hpristine' := hb.pristine
  have hstore : a.store = b.store := by
    rw [Store.releaseVariables_eq_self hpristine.nameOf?,
      Store.releaseVariables_eq_self hpristine'.nameOf?] at hstores
    exact hstores
  have hwork : a.work = b.work := hpristine.work.trans hpristine'.work.symm
  have halike : a.Alike b := ⟨hstore, hwork, hanswers, hhooks, hhooks'⟩
  exact (halike.prepareAll preparations).send m

/-- A mapper with a new node, whose connection answers one statement with a node. -/
def acquainted : Mapper Unit :=
  let answer : Answer := fun s =>
    .ok ⟨s.returns.map fun name => .ofList [(name, .node ⟨8, ["Node"], .empty⟩)]⟩
  (new {} { answers := [answer] } ()).act (.create "Node" .node {})

/-- Fails without touching anything. -/
def refusal : Hook Unit := fun _ e _ state => ⟨e, state, some "refused"⟩

/-- The same, but its node was to be saved, and a hook has refused it. -/
def rebuffed : Mapper Unit :=
  let hooked := ((acquainted.on "Node" .beforeCreate refusal).2.act (.request (.save .epoch ⟨0⟩)))
  { (hooked.send .epoch).2 with hooks := .empty }

/-- The node is given a name and saved: that a save failed before makes no difference. -/
theorem send_isolated_rebuffed :
    let preparations : List Preparation :=
      [.edit ⟨0⟩ fun e => (e.assign "name" (.string "Ada")).toOption.getD e,
        .request (.save .epoch ⟨0⟩)]
    acquainted.Rested ∧ rebuffed.Rested ∧
      acquainted.store.releaseVariables = rebuffed.store.releaseVariables ∧
      acquainted.connection.answers = rebuffed.connection.answers ∧
      acquainted.hooks.size = 0 ∧ rebuffed.hooks.size = 0 ∧
      ((acquainted.prepareAll preparations).executed .epoch).map (·.returns) = [["n0"]] ∧
      (acquainted.prepareAll preparations).SendsAlike (rebuffed.prepareAll preparations)
        .epoch := by
  intro preparations
  have hcreate : ∀ r, (Action.create "Node" .node {} : Action Unit) ≠ .request r := by
    intro r h
    cases h
  have hacquainted : acquainted.Rested := .acted (.new {} _ ()) hcreate
  have hrebuffed : rebuffed.Rested := .hooked (.sent _ .epoch) .empty
  exact ⟨hacquainted, hrebuffed, rfl, rfl, rfl, rfl, rfl,
    send_isolated.2 acquainted rebuffed hacquainted hrebuffed rfl rfl rfl rfl preparations
      .epoch⟩

end Mapper

end GraphMapping
