import GraphMapping.Proofs.Mapper.Calls
import GraphMapping.Proofs.Work.FlushSteps

/-!
# Are requested saves delivered

A save that was requested is pending until it is sent, on its own or absorbed by the save of a
relationship. Which entities a statement writes is decided when it is composed: the entity of the
operation, and the ends that it has *then*. The ends of a relationship may have been changed since
it absorbed the saves of its former ends. Such a former end is still accounted for as absorbed, but
nothing writes it any more.

So delivery is stated as an equivalence. An entity is written by a flush exactly when a pending save
is on it, or on a relationship that has it as an end at the time of the flush.

## Main definitions

* `Mapper.IsTarget`: a statement of the flush returns the variable of the entity.

## Main results

* `Mapper.executes_of_mem_statements`: the response lists the executed statements.
* `Mapper.isTarget_iff`: what a flush writes.
* `Tracked.send_delivers`: which requested saves are delivered.
* `Tracked.send_omits_former_end`: one that is not.
-/

namespace GraphMapping

variable {σ : Type}

/-! ### What a flush writes -/

namespace Mapper

variable {mapper : Mapper σ} {m : Moment} {response : Response} {key : EntityKey}

/-- What a flush begins with. -/
def beforeFlush (mapper : Mapper σ) : FlushState σ where
  store := mapper.store
  names := mapper.work.names
  connection := mapper.connection
  app := mapper.app

theorem exists_runOperations (hok : (mapper.send m).1 = .ok response) :
    ∃ st, runOperations mapper.hooks m mapper.work.operations {} mapper.beforeFlush =
      (.ok response, st) := by
  have hsend : (mapper.send m).1 =
      (runOperations mapper.hooks m mapper.work.operations {} mapper.beforeFlush).1 := rfl
  exact ⟨_, Prod.ext (hsend.symm.trans hok) rfl⟩

/-- A flush that succeeds lists the statements that it executes. -/
theorem executes_of_mem_statements (hok : (mapper.send m).1 = .ok response) {s : Statement}
    (hs : s ∈ response.statements) :
    ∃ store, Executes mapper.hooks m mapper.work.operations mapper.beforeFlush s store := by
  obtain ⟨st, hrun⟩ := exists_runOperations hok
  exact ((mem_statements hrun).2 s hs).resolve_left List.not_mem_nil

/-- Sending executes a statement that returns the variable which the entity has when the statement
is composed. -/
def IsTarget (mapper : Mapper σ) (m : Moment) (response : Response) (key : EntityKey) : Prop :=
  ∃ s store, Executes mapper.hooks m mapper.work.operations mapper.beforeFlush s store ∧
    s ∈ response.statements ∧ ∃ name, store.nameOf? key = some name ∧ name ∈ s.returns

/-- A flush that succeeds writes what the pending saves are on, and the ends that these have when it
begins. An end that was replaced after the request is written in the place of the former one. -/
theorem isTarget_iff (hhooks : mapper.hooks.size = 0)
    (hnamed : mapper.store.NamedBy mapper.work.names) (hok : (mapper.send m).1 = .ok response) :
    mapper.IsTarget m response key ↔
      ∃ op ∈ mapper.work.operations, op.Targets mapper.store key := by
  constructor
  · rintro ⟨s, store, hexecutes, -, name, hname, hreturned⟩
    exact hexecutes.targets hhooks hnamed hname hreturned
  · rintro ⟨op, hop, htargets⟩
    obtain ⟨st, hrun⟩ := exists_runOperations hok
    exact exists_executes hhooks hrun hnamed hop htargets

end Mapper

namespace Tracked

variable {mapper : Mapper σ} {m : Moment} {response : Response} {key : EntityKey}

/-- **Which requested saves are delivered.** Without hooks, whatever is called before a flush that
succeeds, an entity whose save was last requested, and was not dropped for an equal entity,

* is returned by an executed statement exactly if a pending save is on it or on a relationship that
  has it as an end at the time of the flush;
* and if it is not, then its save was absorbed by that of a relationship which has got another end
  since. -/
theorem send_delivers (hsettled : mapper.Settled) (hhooks : mapper.hooks.size = 0)
    (calls : List Mapper.Call) (hok : ((run ⟨mapper, []⟩ calls).mapper.send m).1 = .ok response)
    (hlast : (run ⟨mapper, []⟩ calls).log.last? key = some .save)
    (hkept : ∀ entry ∈ (run ⟨mapper, []⟩ calls).log.since key, ¬ entry.DropsSave key) :
    let sent := (run ⟨mapper, []⟩ calls).mapper
    (sent.IsTarget m response key ↔
      ∃ op ∈ sent.work.operations, op.kind = .save ∧
        (key = op.key ∨ ∃ e, sent.store.get? op.key = some e ∧ key ∈ e.endpointKeys)) ∧
    (¬ sent.IsTarget m response key →
      ∃ op ∈ sent.work.operations, op.kind = .save ∧ key ∈ op.absorbed ∧
        ∀ e, sent.store.get? op.key = some e → key ∉ e.endpointKeys) := by
  intro sent
  have hsound : (run ⟨mapper, []⟩ calls).Sound := sound_run (sound_of_settled hsettled) calls
  have hhooks' : sent.hooks.size = 0 := by
    rw [← hhooks]
    exact congrArg Hooks.size (hooks_run ⟨mapper, []⟩ calls)
  have htarget : sent.IsTarget m response key ↔
      ∃ op ∈ sent.work.operations, op.Targets sent.store key :=
    Mapper.isTarget_iff hhooks' hsound.named hok
  refine ⟨htarget, fun hmissed => ?_⟩
  rw [htarget] at hmissed
  obtain ⟨op, hop, hkind, hkey | habsorbed⟩ := hsound.accounted.saved key hlast hkept
  · exact absurd ⟨op, hop, hkind, .inl hkey.symm⟩ hmissed
  · refine ⟨op, hop, hkind, habsorbed, fun e he hend => ?_⟩
    exact hmissed ⟨op, hop, hkind, .inr ⟨e, he, hend⟩⟩

/-- Two nodes are created, and a relationship from the first one, whose save absorbs that of its
start. -/
def savedFriendship : List Mapper.Call :=
  [.create "Node" .node {}, .create "Node" .node {},
    .create "Knows" .relationship { start := some (.entity ⟨0⟩), finish := some (.id 2) },
    .request (.save .epoch ⟨0⟩), .request (.save .epoch ⟨2⟩)]

/-- A mapper of its own where some calls were made. -/
def fresh (calls : List Mapper.Call) : Tracked Unit := run ⟨.new {} {} (), []⟩ calls

/-- The relationship that is saved last has the first node as its start. -/
theorem savedFriendship_keeps :
    ∀ entry ∈ (fresh savedFriendship).log.since ⟨0⟩, ¬ entry.DropsSave ⟨0⟩ := by
  have hend : ∀ entry ∈ (fresh savedFriendship).log.since ⟨0⟩,
      (entry.store.get? entry.request.key).any (⟨0⟩ ∈ ·.endpointKeys) = true :=
    List.all_eq_true.mp rfl
  rintro entry hentry ⟨-, -, hnot⟩
  obtain ⟨e, he, hmem⟩ := (Option.any_eq_true _ _).mp (hend entry hentry)
  exact hnot e he (of_decide_eq_true hmem)

theorem send_delivers_friend :
    (Mapper.new {} {} ()).Settled ∧ (Mapper.new {} {} ()).hooks.size = 0 ∧
      (fresh savedFriendship).log.last? ⟨0⟩ = some .save ∧
      (∀ entry ∈ (fresh savedFriendship).log.since ⟨0⟩, ¬ entry.DropsSave ⟨0⟩) ∧
      ∃ response, ((fresh savedFriendship).mapper.send .epoch).1 = .ok response ∧
        (fresh savedFriendship).mapper.IsTarget .epoch response ⟨0⟩ := by
  refine ⟨Mapper.settled_new _ _ _, rfl, rfl, savedFriendship_keeps, _, rfl, ?_⟩
  have hdelivers := send_delivers (Mapper.settled_new {} {} ()) rfl savedFriendship
    (m := .epoch) rfl rfl savedFriendship_keeps
  refine hdelivers.1.mpr ⟨_, List.mem_singleton_self _, rfl, .inr ⟨_, rfl, ?_⟩⟩
  exact List.mem_singleton_self _

/-- **A requested save that is not delivered.** The relationship gets another start after it
absorbed the save of its former one. -/
theorem send_omits_former_end :
    let moved := fresh (savedFriendship ++ [.edit ⟨2⟩ (.setEndpoint .start (.entity ⟨1⟩))])
    moved.log.last? ⟨0⟩ = some .save ∧ (∀ entry ∈ moved.log.since ⟨0⟩, ¬ entry.DropsSave ⟨0⟩) ∧
      ∃ response, (moved.mapper.send .epoch).1 = .ok response ∧
        ¬ moved.mapper.IsTarget .epoch response ⟨0⟩ := by
  intro moved
  have hnamed : moved.mapper.store.NamedBy moved.mapper.work.names :=
    (sound_run (sound_of_settled (Mapper.settled_new {} {} ())) _).named
  refine ⟨rfl, savedFriendship_keeps, _, rfl, ?_⟩
  rw [Mapper.isTarget_iff rfl hnamed rfl]
  rintro ⟨op, hop, -, hkey⟩
  have hpending : op.key ∈ moved.mapper.work.operations.map (·.key) := List.mem_map_of_mem hop
  rw [List.mem_singleton.mp hpending] at hkey
  rcases hkey with hkey | ⟨e, he, hend⟩
  · exact absurd hkey (by decide)
  · obtain rfl := Option.some.inj he
    exact absurd hend (by decide)

end Tracked

end GraphMapping
