import GraphMapping.Proofs.Mapper.Delivery
import GraphMapping.Proofs.Work.Course

/-!
# What a flush settles

A flush that succeeds carries out every pending operation. What was written is settled afterwards:
nothing about it is left to write. Whether an entity has an id depends on what came back for it and
on what was deleted, in the order of the operations: an id is given by a result that binds the
entity's variable, it is kept by every later save, and it is lost by a delete only.

Several operations may touch one entity, so that none of this can be read off a single operation.
It follows from the course that the store takes. No assumption is made on the operations, on the
variables in the store or on what the connection answers.

## Main definitions

* `Mapper.carried`: the operations that sending carries out.
* `Mapper.Settles`: what sending has settled.

## Main results

* `Mapper.send_settles`: a flush that succeeds settles what it touches.
-/

namespace GraphMapping

variable {σ : Type}

namespace Mapper

/-- The operations that sending carries out, with what came back for them. -/
def carried (mapper : Mapper σ) (m : Moment) : List Carried :=
  GraphMapping.carried mapper.hooks m mapper.work.operations mapper.beforeFlush

variable {mapper : Mapper σ} {m : Moment} {response : Response}

/-- Sending takes back the variables that the flush has left. -/
theorem store_send {st : FlushState σ} {outcome : Except MapperError Response}
    (hrun : runOperations mapper.hooks m mapper.work.operations {} mapper.beforeFlush =
      (outcome, st)) : (mapper.send m).2.store = st.store.releaseVariables :=
  congrArg (fun step => step.2.store.releaseVariables) hrun

theorem get?_send {st : FlushState σ} {outcome : Except MapperError Response}
    (hrun : runOperations mapper.hooks m mapper.work.operations {} mapper.beforeFlush =
      (outcome, st)) (key : EntityKey) :
    (mapper.send m).2.store.get? key = (st.store.get? key).map Entity.releaseVariable := by
  rw [store_send hrun, Store.get?_releaseVariables]

theorem idOf?_send {st : FlushState σ} {outcome : Except MapperError Response}
    (hrun : runOperations mapper.hooks m mapper.work.operations {} mapper.beforeFlush =
      (outcome, st)) (key : EntityKey) :
    (mapper.send m).2.store.idOf? key = st.store.idOf? key := by
  rw [Store.idOf?, get?_send hrun, Store.idOf?, Option.bind_map]
  rfl

/-- Sending has settled what the pending operations touch. -/
structure Settles (mapper : Mapper σ) (m : Moment) : Prop where
  /-- All pending operations are carried out, in order. -/
  operations : (mapper.carried m).map (·.op) = mapper.work.operations
  /-- What is written has nothing left to write. -/
  settled : ∀ op ∈ mapper.work.operations, ∀ key, op.Targets mapper.store key →
    ∃ e, (mapper.send m).2.store.get? key = some e ∧ e.Settled
  /-- What came back from a save, and is not deleted later, has an id. -/
  returned : ∀ before c after, mapper.carried m = before ++ c :: after →
    ∀ key, c.op.Targets mapper.store key → c.Binds m key → (∀ c' ∈ after, ¬ c'.op.Deletes key) →
      ((mapper.send m).2.store.idOf? key).isSome
  /-- What is not deleted keeps its id. -/
  kept : ∀ key id, mapper.store.idOf? key = some id →
    (∀ op ∈ mapper.work.operations, ¬ op.Deletes key) →
      (mapper.send m).2.store.idOf? key = some id
  /-- What is deleted, and not touched later, has no id. -/
  deleted : ∀ before op after, mapper.work.operations = before ++ op :: after →
    ∀ key, op.Deletes key → (∀ op' ∈ after, ¬ op'.Touches mapper.store key) →
      (mapper.send m).2.store.idOf? key = none
  /-- Nothing is pending. -/
  pending : (mapper.send m).2.pending = 0

/-- **A flush that succeeds settles what it touches.** Without hooks, and whatever operations are
pending and whatever the connection answers: every entity that a save writes has nothing left to
write, and has an id if a save of it came back with one and no delete of it followed; ids are kept
unless they are deleted; what is deleted and not touched again has no id; and nothing is pending. -/
theorem send_settles (hhooks : mapper.hooks.size = 0) (hok : (mapper.send m).1 = .ok response) :
    mapper.Settles m := by
  obtain ⟨st, hrun⟩ := exists_runOperations hok
  obtain ⟨hops, hcourse⟩ : (mapper.carried m).map (·.op) = mapper.work.operations ∧
      Course m mapper.store (mapper.carried m) st.store := course_of_ok hhooks hrun
  constructor
  case operations => exact hops
  case pending => rfl
  case settled =>
    intro op hop key htargets
    rw [← hops] at hop
    obtain ⟨c, hc, rfl⟩ := List.mem_map.mp hop
    obtain ⟨e, he⟩ := hcourse.exists_of_targets hc htargets
    obtain ⟨e', he', hsettled⟩ := hcourse.settled he (.inr ⟨c, hc, htargets⟩)
    exact ⟨e'.releaseVariable, by rw [get?_send hrun, he', Option.map_some],
      hsettled.releaseVariable⟩
  case returned =>
    intro before c after heq key htargets hbinds hnot
    rw [heq] at hcourse
    rw [idOf?_send hrun]
    exact hcourse.isSome_idOf? htargets hbinds hnot
  case kept =>
    intro key id hid hnot
    rw [idOf?_send hrun]
    refine hcourse.idOf?_kept (fun c hc => hnot c.op ?_) hid
    exact hops ▸ List.mem_map_of_mem hc
  case deleted =>
    intro before op after heq key hdeletes hnot
    rw [← hops] at heq
    obtain ⟨cs, cs', hcs, rfl, hcs'⟩ := List.map_eq_append_iff.mp heq
    obtain ⟨c, after', rfl, rfl, rfl⟩ := List.map_eq_cons_iff.mp hcs'
    rw [hcs] at hcourse
    rw [idOf?_send hrun]
    exact hcourse.idOf?_deleted hdeletes fun c' hc' => hnot c'.op (List.mem_map_of_mem hc')

/-- Two nodes, of which the first has the id 3 and was deleted from; the second one has a new
property and is saved, and comes back with an id. -/
def farewell : Mapper Unit where
  settings := {}
  catalog := .empty true
  store :=
    ⟨[{ Entity.node "Node" ["Node"] (.empty true) with id := some 3 },
      (Entity.node "Node" ["Node"] (.empty true)).withAssigned "name"
        ⟨.ofList [("name", .ofAssignment .string (.fixed (.string "x")))], true⟩]⟩
  hooks := .empty
  work := { operations := [⟨⟨1⟩, .save, .scheduled, []⟩, ⟨⟨0⟩, .delete true, .scheduled, []⟩] }
  connection := { answers := [fun _ => .ok ⟨[.ofList [("n0", .node ⟨8, ["Node"], .empty⟩)]]⟩] }
  app := ()

/-- The saved node has the id that came back, and the deleted one has none. -/
theorem send_settles_farewell : farewell.hooks.size = 0 ∧
    (∃ response, (farewell.send .epoch).1 = .ok response) ∧ farewell.Settles .epoch ∧
      (farewell.send .epoch).2.store.idOf? ⟨1⟩ = some 8 ∧
      (farewell.send .epoch).2.store.idOf? ⟨0⟩ = none :=
  ⟨rfl, ⟨_, rfl⟩, send_settles rfl rfl, rfl, rfl⟩

end Mapper

end GraphMapping
