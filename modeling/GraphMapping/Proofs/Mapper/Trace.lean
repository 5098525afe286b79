import GraphMapping.Proofs.Mapper.Identity
import GraphMapping.Proofs.Work.Report

/-!
# The trace of a flush

Sending notes what it does, operation by operation. What an operation notes lies between what the
operations around it note: first the steps before its statement, one for each entity that it
touches, then the statement, and then the steps after it for the same entities. In every step the
hooks that are registered for it are called. When something fails, the last operation that began
notes the beginning of this, and sending ends there.

Which entities an operation touches is settled when the work is sent, since hooks do not change the
ends of relationships. What happens to them is not: an entity that is created by one operation is
updated by the next.

## Main definitions

* `Mapper.Traced`: what sending notes, and what it reports.

## Main results

* `Mapper.send_traced`: hooks that change neither ids nor ends leave the trace to the operations.
-/

namespace GraphMapping

variable {σ : Type}

namespace Mapper

variable {mapper : Mapper σ} {m : Moment}

/-- What sending notes and reports is that of the operations, in order. -/
structure Traced (mapper : Mapper σ) (m : Moment) : Prop where
  /-- The operations begin in the order in which they are pending. -/
  pending : (mapper.turns m).map (·.op) <+: mapper.work.operations
  /-- An operation has the stored ends of a relationship to save as targets, start first, and then
  the entity that it is on, none of them twice. -/
  targets : ∀ t ∈ mapper.turns m, t.targets.map (·.key) = t.op.touched mapper.store ∧
    (t.targets.map (·.key)).Nodup
  /-- When it begins, each of its targets is to be deleted by a delete, and by a save it is to be
  updated if it has an id by then, and created otherwise. -/
  families : ∀ t ∈ mapper.turns m, ∀ ob ∈ t.targets,
    (ob.family = .delete ↔ t.op.kind ≠ .save) ∧
      (ob.family = .update ↔ t.op.kind = .save ∧ (t.state.store.idOf? ob.key).isSome)
  /-- When it comes to the steps after the statement, one was executed, unless it is the delete of
  an entity that had no id when it began. -/
  statement : ∀ t ∈ mapper.turns m, ∀ reply st,
    answerOperation mapper.hooks m t.op t.state = (.ok reply, st) →
      t.statement? mapper.hooks m = reply.statement ∧
        (reply.statement = none ↔ t.op.kind ≠ .save ∧ t.state.store.idOf? t.op.key = none)
  /-- A flush that succeeds notes the events of all operations. -/
  finished : ∀ response, (mapper.send m).1 = .ok response →
    (mapper.turns m).map (·.op) = mapper.work.operations ∧
    (∀ t ∈ mapper.turns m, ∃ reply st,
      answerOperation mapper.hooks m t.op t.state = (.ok reply, st)) ∧
    (mapper.sendJournaled m).1.2 = (mapper.turns m).flatMap (Turn.events mapper.hooks m)
  /-- A failure is that of the last operation that begins, whose events are noted until then. -/
  failed : ∀ err, (mapper.send m).1 = .error err → ∃ earlier last part,
    mapper.turns m = earlier ++ [last] ∧
    (mapper.sendJournaled m).1.2 = earlier.flatMap (Turn.events mapper.hooks m) ++ part ∧
    part <+: last.events mapper.hooks m ∧
    (runOperation mapper.hooks m last.op last.state).1 = .error err
  /-- A flush that succeeds reports the executed statements, the rows that they were answered with,
  and all operations as finalized. -/
  response : ∀ response, (mapper.send m).1 = .ok response →
    response.statements = mapper.executed m ∧
    response.result.rows = mapper.connection.rows (mapper.executed m) ∧
    response.operations =
      mapper.work.operations.map fun op => { op with state := .finalized }

/-- What an operation touches does not depend on the operations before it. It is told by the shapes
of entities, and neither results nor hooks that only edit can change these. -/
theorem touched_of_mem_turns (hhooks : mapper.hooks.Within Entity.Edits) {t : Turn σ}
    (ht : t ∈ mapper.turns m) : t.op.touched t.state.store = t.op.touched mapper.store :=
  Store.Keeps.touched (rel_of_mem_turns
    (R := fun st st' => Store.Keeps Entity.shape st.store st'.store) (fun _ => .refl _)
    (fun _ _ _ => .trans)
    (fun op _ => (stepsWithin_keeps_shape hhooks op).run fun _ _ _ _ => trivial)
    ht) t.op

/-- **The trace of a flush.** When the stored ends of pending relationships are nodes, and no hook
or handler changes ids or ends, the pending operations note their events one after the other, up to
the first failure. -/
theorem send_traced (m : Moment) (hhooks : mapper.hooks.Within Entity.Edits)
    (hends : ∀ op ∈ mapper.work.operations, op.JoinsNodes mapper.store) : mapper.Traced m := by
  have hfront : (mapper.turns m).map (·.op) <+: mapper.work.operations := turns_prefix _ _
  have hkeys : ∀ t ∈ mapper.turns m, t.targets.map (·.key) = t.op.touched mapper.store := by
    intro t ht
    rw [← touched_of_mem_turns hhooks ht, Turn.targets, List.map_map]
    exact List.map_id _
  have hnodup : ∀ t ∈ mapper.turns m, (t.op.touched mapper.store).Nodup := fun t ht =>
    Operation.nodup_touched (hends t.op (hfront.subset (List.mem_map_of_mem ht)))
  have hnodup' : ∀ t ∈ GraphMapping.turns mapper.hooks m mapper.work.operations mapper.beforeFlush,
      (t.op.touched t.state.store).Nodup := by
    intro t ht
    rw [touched_of_mem_turns hhooks ht]
    exact hnodup t ht
  obtain ⟨hnoted, hfailed⟩ := journal_runOperations hhooks hnodup' {}
  have hrestrained : mapper.hooks.Restrained := (hhooks.mono fun _ _ => (·.toKeeps)).restrained
  constructor
  case pending => exact hfront
  case targets => exact fun t ht => ⟨hkeys t ht, hkeys t ht ▸ hnodup t ht⟩
  case families =>
    rintro t - ob hob
    obtain ⟨key, -, rfl⟩ := List.mem_map.mp hob
    exact ⟨Operation.familyOf_eq_delete, Operation.familyOf_eq_update⟩
  case statement => exact fun t _ reply st => statement?_of_answer hhooks
  case finished =>
    intro response hok
    obtain ⟨st, hrun⟩ := exists_runOperations hok
    obtain ⟨hall, hdone⟩ := turns_of_ok hrun
    refine ⟨hall, fun t ht => ?_, hnoted response hok⟩
    obtain ⟨done, st', hrun'⟩ := hdone t ht
    rw [runOperation_eq] at hrun'
    rcases hanswer : answerOperation mapper.hooks m t.op t.state with ⟨_ | reply, st₁⟩
    · simp [hanswer] at hrun'
    · exact ⟨reply, st₁, rfl⟩
  case failed => exact hfailed
  case response =>
    intro response hok
    obtain ⟨st, hrun⟩ := exists_runOperations hok
    obtain ⟨hoperations, hrows⟩ := report_runOperations hrun
    rw [executed_eq hrestrained]
    exact ⟨statements_runOperations hrun, hrows, hoperations⟩

/-- A hook that runs before a guest is created, and notes in its properties that it did. -/
def greeting : Hooks Unit :=
  (Hooks.empty.register "Guest" .beforeCreate fun _ e _ app =>
    ⟨(Entity.Command.assign "greeted" (.bool true)).apply e, app, none⟩).2

theorem within_greeting : greeting.Within Entity.Edits := by
  refine ⟨fun hook hhook => ?_, nofun⟩
  obtain rfl := List.mem_singleton.mp hhook
  have hedit : (Entity.Command.assign "greeted" (.bool true)).IsEdit := trivial
  exact fun _ e _ _ => hedit.edits e

/-- The visit of a new guest at a host that has an id is saved, and then the host is deleted. -/
def visit : Mapper Unit where
  settings := {}
  catalog := .empty true
  store :=
    ⟨[{ Entity.node "Host" ["Host"] (.empty true) with id := some 3 },
      .node "Guest" ["Guest"] (.empty true),
      .relationship "Visits" ["VISITS"] (some (.entity ⟨1⟩)) (some (.entity ⟨0⟩)) (.empty true)]⟩
  hooks := greeting
  work := { operations := [⟨⟨2⟩, .save, .scheduled, []⟩, ⟨⟨0⟩, .delete true, .scheduled, []⟩] }
  connection := {}
  app := ()

theorem visit_joinsNodes : ∀ op ∈ visit.work.operations, op.JoinsNodes visit.store := by
  intro op hop hkind e he key hkey node hnode
  rcases List.mem_cons.mp hop with rfl | hop
  · obtain rfl := Option.some.inj he
    have hkeys : key = ⟨1⟩ ∨ key = ⟨0⟩ := by simpa using List.mem_pair.mp hkey
    rcases hkeys with rfl | rfl <;> obtain rfl := Option.some.inj hnode <;> rfl
  · rw [List.mem_singleton.mp hop] at hkind
    cases hkind

theorem send_traced_visit : visit.hooks.Within Entity.Edits ∧
    (∀ op ∈ visit.work.operations, op.JoinsNodes visit.store) ∧ visit.Traced .epoch ∧
    ∃ s s', (visit.sendJournaled .epoch).1.2 =
      [.step ⟨1⟩ .beforeCreate, .called ⟨0⟩, .step ⟨0⟩ .beforeUpdate, .step ⟨2⟩ .beforeCreate,
        .executed s,
        .step ⟨1⟩ .afterCreate, .step ⟨0⟩ .afterUpdate, .step ⟨2⟩ .afterCreate,
        .step ⟨0⟩ .beforeDelete, .executed s', .step ⟨0⟩ .afterDelete] :=
  ⟨within_greeting, visit_joinsNodes, send_traced .epoch within_greeting visit_joinsNodes, _, _,
    rfl⟩

end Mapper

end GraphMapping
