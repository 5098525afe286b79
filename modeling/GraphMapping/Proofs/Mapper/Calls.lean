import GraphMapping.Mapper.Basic
import GraphMapping.Proofs.Entity.Schemas
import GraphMapping.Proofs.Work.RequestNames

/-!
# Calls on a mapper

An application creates entities, edits the stored ones, requests saves and deletes, and sends. The
requests since the last flush are logged beside the mapper, and the account of the pending work
against that log survives every call, sending included: a flush leaves nothing pending and no
variables, so the log starts again empty.

## Main definitions

* `Edit`: a change that the application makes to a stored entity.
* `Mapper.Call`, `Tracked`: what is called, and a mapper with the log of requests since its last
  flush.
* `Tracked.Sound`: the account is kept, and variables are distinct.

## Main results

* `Tracked.sound_run`: so it stays, whatever is called.
-/

namespace GraphMapping

variable {σ : Type}

/-! ### Calls -/

/-- A change that the application makes to a stored entity. Variables are out of its reach. -/
structure Edit where
  change : Entity → Entity
  keeps : ∀ e, (change e).queryVariable = e.queryVariable

/-- Let an end of a relationship refer to something else; a node is left as it is. -/
def Edit.setEndpoint (role : EndpointRole) (other : Endpoint) : Edit where
  change e := (e.setEndpoint role other).toOption.getD e
  keeps e := by
    unfold Entity.setEndpoint
    split <;> rfl

namespace Mapper

/-- Make a request. -/
def request (mapper : Mapper σ) : Request → Except MapperError (Mapper σ)
  | .save m key => mapper.save m key
  | .delete key detach => mapper.delete key detach

theorem request_eq (mapper : Mapper σ) (r : Request) :
    mapper.request r = (r.apply mapper.work mapper.store).map fun p =>
      { mapper with work := p.1, store := p.2 } := by
  cases r <;> rfl

theorem request_ok {mapper mapper' : Mapper σ} {r : Request} (h : mapper.request r = .ok mapper') :
    ∃ work store, r.apply mapper.work mapper.store = .ok (work, store) ∧
      mapper' = { mapper with work, store } := by
  rw [request_eq] at h
  cases happly : r.apply mapper.work mapper.store with
  | error err => simp [happly, Except.map] at h
  | ok p =>
    rw [happly] at h
    exact ⟨p.1, p.2, rfl, (Except.ok.inj h).symm⟩

/-- An accepted creation stores an entity made after a schema. -/
theorem create_ok {mapper mapper' : Mapper σ} {typeName : String} {kind : EntityKind}
    {new : NewEntity} {key : EntityKey} (h : mapper.create typeName kind new = .ok (key, mapper')) :
    ∃ e, (mapper.catalog.resolve typeName kind).instantiate new = .ok e ∧
      mapper' = { mapper with store := (mapper.store.insert e).2 } := by
  rw [create] at h
  cases hends : checkEndpoints mapper.store new with
  | error err => simp [hends, bind, Except.bind] at h
  | ok u =>
    cases hnew : (mapper.catalog.resolve typeName kind).instantiate new with
    | error err => simp [hends, hnew, bind, Except.bind] at h
    | ok e =>
      simp only [hends, hnew, bind, Except.bind] at h
      exact ⟨e, rfl, (Prod.mk.inj (Except.ok.inj h)).2.symm⟩

/-- What is called on a mapper. -/
inductive Call where
  | create (typeName : String) (kind : EntityKind) (new : NewEntity)
  | edit (key : EntityKey) (edit : Edit)
  | request (r : Request)
  | send (m : Moment)

/-- Nothing is pending, and no entity has a variable: so it is in the beginning and after a
flush. -/
structure Settled (mapper : Mapper σ) : Prop where
  operations : mapper.work.operations = []
  nameOf? : ∀ key, mapper.store.nameOf? key = none

theorem settled_new (settings : MapperSettings) (connection : Connection) (app : σ) :
    (new settings connection app).Settled :=
  ⟨rfl, fun _ => rfl⟩

theorem settled_send (mapper : Mapper σ) (m : Moment) : (mapper.send m).2.Settled :=
  ⟨rfl, fun key => Store.nameOf?_releaseVariables _ key⟩

end Mapper

/-- A mapper with the requests that were accepted since its last flush. -/
structure Tracked (σ : Type) where
  mapper : Mapper σ
  log : Log := []

namespace Tracked

/-- The state after a call. A call that is refused changes nothing. -/
def call (t : Tracked σ) : Mapper.Call → Tracked σ
  | .create typeName kind new =>
    match t.mapper.create typeName kind new with
    | .ok (_, mapper) => { t with mapper }
    | .error _ => t
  | .edit key edit =>
    { t with mapper := { t.mapper with store := t.mapper.store.modify key edit.change } }
  | .request r =>
    match t.mapper.request r with
    | .ok mapper => ⟨mapper, ⟨r, t.mapper.work, t.mapper.store⟩ :: t.log⟩
    | .error _ => t
  | .send m => ⟨(t.mapper.send m).2, []⟩

/-- The state after some calls. -/
def run (t : Tracked σ) (calls : List Mapper.Call) : Tracked σ := calls.foldl call t

/-- The account is kept, and variables are distinct. -/
structure Sound (t : Tracked σ) : Prop where
  accounted : t.mapper.work.Accounted t.log t.mapper.store
  named : t.mapper.store.NamedBy t.mapper.work.names

theorem sound_of_settled {mapper : Mapper σ} (h : mapper.Settled) : Sound ⟨mapper, []⟩ :=
  ⟨.empty mapper.store h.operations, Store.namedBy_of_nameOf?_eq_none h.nameOf? _⟩

end Tracked

/-! ### Variables between calls -/

theorem Schema.queryVariable_instantiate {schema : Schema} {new : NewEntity} {e : Entity}
    (h : schema.instantiate new = .ok e) : e.queryVariable = none :=
  (makes_of_instantiate h).queryVariable

theorem Store.nameOf?_edit (store : Store) (edit : Edit) (key other : EntityKey) :
    (store.modify key edit.change).nameOf? other = store.nameOf? other := by
  by_cases hother : other = key
  · subst hother
    cases he : store.get? other with
    | none => simp [nameOf?, he]
    | some e =>
      rw [nameOf?_modify_self he, edit.keeps, nameOf?, he]
      rfl
  · exact nameOf?_modify_of_ne hother _

/-! ### Runs of calls -/

namespace Tracked

variable {t : Tracked σ}

/-- Every call keeps the account, and the variables distinct. Edits and loading are among the calls,
so neither depends on what happens to the entities between two requests. -/
theorem sound_call (h : t.Sound) (c : Mapper.Call) : (t.call c).Sound := by
  cases c with
  | create typeName kind new =>
    rw [call]
    split
    · rename_i key mapper hcreate
      obtain ⟨e, hnew, rfl⟩ := Mapper.create_ok hcreate
      exact ⟨h.accounted.of_size_le (by simp) rfl,
        h.named.of_nameOf? (Store.nameOf?_insert (Schema.queryVariable_instantiate hnew))⟩
    · exact h
  | edit key edit =>
    exact ⟨h.accounted.of_size_le (Nat.le_of_eq (Store.size_modify ..).symm) rfl,
      h.named.of_nameOf? (Store.nameOf?_edit _ edit key)⟩
  | request r =>
    rw [call]
    split
    · rename_i mapper hrequest
      obtain ⟨work, store, hr, rfl⟩ := Mapper.request_ok hrequest
      exact ⟨h.accounted.request hr, (Work.handsOut_request hr).2 h.named⟩
    · exact h
  | send m => exact sound_of_settled (Mapper.settled_send t.mapper m)

theorem sound_run (h : t.Sound) (calls : List Mapper.Call) : (t.run calls).Sound := by
  induction calls generalizing t with
  | nil => exact h
  | cons c rest ih => exact ih (sound_call h c)

theorem hooks_call (t : Tracked σ) (c : Mapper.Call) :
    (t.call c).mapper.hooks = t.mapper.hooks := by
  cases c with
  | create typeName kind new =>
    rw [call]
    split
    · rename_i key mapper hcreate
      obtain ⟨e, -, rfl⟩ := Mapper.create_ok hcreate
      rfl
    · rfl
  | edit key edit => rfl
  | request r =>
    rw [call]
    split
    · rename_i mapper hrequest
      obtain ⟨work, store, -, rfl⟩ := Mapper.request_ok hrequest
      rfl
    · rfl
  | send m => rfl

theorem hooks_run (t : Tracked σ) (calls : List Mapper.Call) :
    (t.run calls).mapper.hooks = t.mapper.hooks := by
  induction calls generalizing t with
  | nil => rfl
  | cons c rest ih => exact (ih (t.call c)).trans (hooks_call t c)

end Tracked

end GraphMapping
