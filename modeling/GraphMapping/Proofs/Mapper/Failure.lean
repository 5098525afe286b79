import GraphMapping.Proofs.Mapper.Actions
import GraphMapping.Proofs.Mapper.Settlement

/-!
# What a failed flush leaves behind

The first operation that fails ends a flush. The operations in front of it stay carried out, and
those behind it are not even begun. The failing operation itself has changed no entity: it fails
before anything came back for it, and all it can have done by then is to hand out variables, which
the flush takes back.

So an entity that no operation in front of the failing one touches is as it was, without a variable.
And what an entity is, its type name, its labels and its ends, is out of a flush's reach altogether.

## Main definitions

* `Mapper.FailsAt`: the operation at which a flush fails.
* `Mapper.LeavesIntact`: what the flush leaves behind then.

## Main results

* `Mapper.send_intact`: a failed flush leaves what it has not carried out intact.
-/

namespace GraphMapping

variable {σ : Type}

namespace Mapper

/-- Sending fails at an operation: those in front of it are carried out, which leads to the given
state, and then it fails. -/
structure FailsAt (mapper : Mapper σ) (m : Moment) (before : List Operation) (op : Operation)
    (after : List Operation) (st : FlushState σ) (err : MapperError) : Prop where
  operations : mapper.work.operations = before ++ op :: after
  reached : ∃ response,
    runOperations mapper.hooks m before {} mapper.beforeFlush = (.ok response, st)
  fails : (runOperation mapper.hooks m op st).1 = .error err

/-- Sending leaves intact what has not been carried out in the given state. -/
structure LeavesIntact (mapper : Mapper σ) (m : Moment) (before : List Operation) (op : Operation)
    (st : FlushState σ) : Prop where
  /-- The failing operation has changed nothing but variables. -/
  store : (mapper.send m).2.store = st.store.releaseVariables
  /-- What is not touched in front of it is as it was, without a variable. -/
  untouched : ∀ key, (∀ op' ∈ before, ¬ op'.Touches mapper.store key) →
    (mapper.send m).2.store.get? key = (mapper.store.get? key).map Entity.releaseVariable
  /-- Nothing is executed behind the statement of the failing operation. -/
  executed : ∃ own : Option Statement, mapper.executed m = st.executed ++ own.toList ∧
    ∀ s, own = some s → (composeOperation m st.store st.names op).outcome = .ok (some s)

variable {mapper : Mapper σ} {m : Moment}

/-- A flush that fails does so at one of its operations. Those in front of it have been carried out,
and those behind it have not begun; the theorems on failure are about these three parts. -/
theorem exists_failsAt {err : MapperError} (h : (mapper.send m).1 = .error err) :
    ∃ before op after st, mapper.FailsAt m before op after st err := by
  rcases hrun : runOperations mapper.hooks m mapper.work.operations {} mapper.beforeFlush with
    ⟨outcome, st'⟩
  have houtcome : outcome = .error err := (congrArg Prod.fst hrun).symm.trans h
  rw [houtcome] at hrun
  obtain ⟨op, after, st, response, hops, hreached, hfails⟩ := exists_of_error hrun
  exact ⟨_, op, after, st, hops, ⟨response, hreached⟩, congrArg Prod.fst hfails⟩

section Hookless

variable (hhooks : mapper.hooks.size = 0)

include hhooks

theorem FailsAt.leavesIntact {before after : List Operation} {op : Operation} {st : FlushState σ}
    {err : MapperError} (h : mapper.FailsAt m before op after st err) :
    (mapper.send m).1 = .error err ∧ op.Fails m st err ∧ mapper.LeavesIntact m before op st := by
  obtain ⟨hops, ⟨response, hreached⟩, hfails⟩ := h
  rcases hop : runOperation mapper.hooks m op st with ⟨outcome, st'⟩
  obtain rfl : outcome = .error err := by rwa [hop] at hfails
  have hrun : runOperations mapper.hooks m mapper.work.operations {} mapper.beforeFlush =
      (.error err, st') := by
    rw [hops, runOperations_append, hreached]
    simp only [runOperations, hop]
  obtain ⟨hfails, hsame⟩ := runOperation_fails hhooks hop
  refine ⟨congrArg Prod.fst hrun, hfails, ?_, fun key hnot => ?_, ?_⟩
  · rw [store_send hrun, hsame]
  · obtain ⟨hcarried, hcourse⟩ := course_of_ok hhooks hreached
    rw [store_send hrun, hsame, Store.get?_releaseVariables]
    refine hcourse.untouched fun c hc => hnot c.op ?_
    exact hcarried ▸ List.mem_map_of_mem hc
  · have hexecuted := executed_runOperation (m := m) (Hooks.restrained_of_size hhooks) op st
    rw [hop] at hexecuted
    refine ⟨_, (congrArg (fun step => step.2.executed) hrun).trans hexecuted, fun s hs => ?_⟩
    obtain ⟨x, hx, rfl⟩ := Option.map_eq_some_iff.mp hs
    obtain ⟨hop, hstore, hnames, houtcome⟩ := execution?_of_size hhooks hx
    rwa [Execution.composed, hop, hstore, hnames] at houtcome

/-- Sending never changes what an entity is. -/
theorem nature_send (key : EntityKey) : ((mapper.send m).2.store.get? key).map Entity.nature =
    (mapper.store.get? key).map Entity.nature := by
  have hreleased : ∀ store : Store, (store.releaseVariables.get? key).map Entity.nature =
      (store.get? key).map Entity.nature := by
    intro store
    rw [Store.get?_releaseVariables, Option.map_map]
    rfl
  cases hsend : (mapper.send m).1 with
  | ok response =>
    obtain ⟨st, hrun⟩ := exists_runOperations hsend
    rw [store_send hrun, hreleased]
    exact (course_of_ok hhooks hrun).2.nature key
  | error err =>
    obtain ⟨before, op, after, st, h⟩ := exists_failsAt hsend
    obtain ⟨response, hreached⟩ := h.reached
    rw [(h.leavesIntact hhooks).2.2.store, hreleased]
    exact (course_of_ok hhooks hreached).2.nature key

/-- **A failed flush leaves what it has not carried out intact.** Without hooks, and whatever is
pending and the connection answers:

* When an operation is the first to fail, the flush fails with it, because an entity is unknown, its
  statement cannot be composed or the connection refuses it. No later statement is executed. What no
  operation in front of it touches is as it was, and no entity has a variable.
* Every flush that fails does so at such an operation.
* Whether the flush succeeds or fails, no entity has another type name, other labels or other ends
  than before. -/
theorem send_intact (m : Moment) :
    (∀ before op after st err, mapper.FailsAt m before op after st err →
      (mapper.send m).1 = .error err ∧ op.Fails m st err ∧ mapper.LeavesIntact m before op st) ∧
    (∀ err, (mapper.send m).1 = .error err →
      ∃ before op after st, mapper.FailsAt m before op after st err) ∧
    (∀ key, (mapper.send m).2.store.nameOf? key = none) ∧
    ∀ key, ((mapper.send m).2.store.get? key).map Entity.nature =
      (mapper.store.get? key).map Entity.nature :=
  ⟨fun _ _ _ _ _ h => h.leavesIntact hhooks, fun _ h => exists_failsAt h,
    (settled_send mapper m).nameOf?, nature_send hhooks⟩

end Hookless

/-- Three saves are pending: of a node, of a relationship without ends, and of another node. -/
def interrupted : Mapper Unit where
  settings := {}
  catalog := .empty true
  store :=
    ⟨[.node "Node" ["Node"] (.empty true), .relationship "Knows" [] none none (.empty true),
      .node "Node" ["Node"] (.empty true)]⟩
  hooks := .empty
  work := { operations := [⟨⟨0⟩, .save, .scheduled, []⟩, ⟨⟨1⟩, .save, .scheduled, []⟩,
    ⟨⟨2⟩, .save, .scheduled, []⟩] }
  connection := { answers := [fun _ => .ok ⟨[.ofList [("n0", .node ⟨8, ["Node"], .empty⟩)]]⟩] }
  app := ()

/-- The relationship cannot be written: the first node has got an id, and the last one is as it
was. -/
theorem send_intact_interrupted : interrupted.hooks.size = 0 ∧
    (∃ before op after st err, interrupted.FailsAt .epoch before op after st err ∧
      interrupted.LeavesIntact .epoch before op st) ∧
    (interrupted.send .epoch).2.store.idOf? ⟨0⟩ = some 8 ∧
    (interrupted.send .epoch).2.store.get? ⟨2⟩ = interrupted.store.get? ⟨2⟩ ∧
    (interrupted.executed .epoch).length = 1 := by
  have hfails : interrupted.FailsAt .epoch [⟨⟨0⟩, .save, .scheduled, []⟩]
      ⟨⟨1⟩, .save, .scheduled, []⟩ [⟨⟨2⟩, .save, .scheduled, []⟩] _ _ := ⟨rfl, ⟨_, rfl⟩, rfl⟩
  exact ⟨rfl, ⟨_, _, _, _, _, hfails, ((send_intact rfl .epoch).1 _ _ _ _ _ hfails).2.2⟩, rfl, rfl,
    rfl⟩

end Mapper

end GraphMapping
