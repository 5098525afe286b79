import GraphMapping.Proofs.Statement.DeleteBatch
import GraphMapping.Proofs.Statement.SaveBatch
import GraphMapping.Work.Preview

/-!
# What an operation writes

A save writes its entity and, when it is a relationship, the stored nodes that are its ends at that
time. Its statement returns the variables of exactly these entities. A delete returns nothing.

## Main definitions

* `Operation.Targets`: the operation writes the entity.

## Main results

* `composeOperation_naming`: composing only hands out variables.
* `mem_returns_composeOperation`: the returned variables are those of the targets.
-/

namespace GraphMapping

variable {store : Store} {key k : EntityKey} {names : Names} {m : Moment} {op : Operation}

/-! ### Ends -/

theorem Entity.mem_endpointKeys {e : Entity} :
    key ∈ e.endpointKeys ↔ ∃ role, e.endpoint? role = some (.entity key) := by
  have hbind : ∀ role, (e.endpoint? role).bind Endpoint.key? = some key ↔
      e.endpoint? role = some (.entity key) := by
    intro role
    cases e.endpoint? role with
    | none => simp
    | some x => cases x <;> simp [Endpoint.key?]
  have hrole : (∃ role, e.endpoint? role = some (.entity key)) ↔
      (e.endpoint? .start).bind Endpoint.key? = some key ∨
        (e.endpoint? .finish).bind Endpoint.key? = some key := by
    rw [hbind, hbind]
    constructor
    · rintro ⟨role, hend⟩
      cases role
      · exact .inl hend
      · exact .inr hend
    · rintro (hend | hend)
      · exact ⟨_, hend⟩
      · exact ⟨_, hend⟩
  rw [hrole]
  cases hstart : (e.endpoint? .start).bind Endpoint.key? with
  | none => cases hfinish : (e.endpoint? .finish).bind Endpoint.key? with
    | none => simp [endpointKeys, hstart, hfinish]
    | some b => simp [endpointKeys, hstart, hfinish, eq_comm]
  | some a => cases hfinish : (e.endpoint? .finish).bind Endpoint.key? with
    | none => simp [endpointKeys, hstart, hfinish, eq_comm]
    | some b =>
      by_cases hab : a = b
      · simp [endpointKeys, hstart, hfinish, hab, eq_comm]
      · simp [endpointKeys, hstart, hfinish, hab, eq_comm]

/-- The operation writes the entity: it saves it, or a relationship that the entity is an end of. -/
def Operation.Targets (store : Store) (op : Operation) (key : EntityKey) : Prop :=
  op.kind = .save ∧ (key = op.key ∨ ∃ e, store.get? op.key = some e ∧ key ∈ e.endpointKeys)

theorem Batch.mem_mentioned :
    Endpoint.entity k ∈ mentioned store key ↔
      k = key ∨ ∃ e, store.get? key = some e ∧ k ∈ e.endpointKeys := by
  simp only [mem_mentioned_iff, Entity.mem_endpointKeys, exists_and_left]

/-! ### Composing an operation -/

theorem collectDeletion_naming (hnamed : store.NamedBy names) (keys : List EntityKey) :
    let composed := collectDeletion store names {} keys
    Naming store names composed.store composed.names ∧
      composed.store.NamedBy composed.names := by
  obtain ⟨collected, h, -⟩ := collectDeletion_collects (.start hnamed) keys
  exact ⟨h.naming, h.named⟩

/-- Composing an operation only hands out variables, to distinct entities. -/
theorem composeOperation_naming (m : Moment) (op : Operation) (hnamed : store.NamedBy names) :
    Naming store names (composeOperation m store names op).store
        (composeOperation m store names op).names ∧
      (composeOperation m store names op).store.NamedBy
        (composeOperation m store names op).names := by
  rw [composeOperation]
  cases op.kind with
  | delete detach => exact collectDeletion_naming hnamed [op.key]
  | save =>
    cases hcheck : Batch.check store [op.key] with
    | error err =>
      simp only [composeSave, hcheck]
      exact ⟨.refl store names, hnamed⟩
    | ok u =>
      obtain ⟨parts, h⟩ := Batch.exists_parts (m := m) hnamed hcheck
      simp only [Batch.composeSave_eq hcheck]
      exact ⟨h.naming, h.named⟩

/-- The statement of an operation returns the variables of its targets, and of nothing else: an end
that is only matched by its bare id has a variable too, but does not come back. -/
theorem mem_returns_composeOperation (hnamed : store.NamedBy names) {s : Statement}
    (hs : (composeOperation m store names op).outcome = .ok (some s)) :
    (∃ name, (composeOperation m store names op).store.nameOf? key = some name ∧
      name ∈ s.returns) ↔ op.Targets store key := by
  cases hkind : op.kind with
  | delete detach =>
    have hnone : s.returns = [] := by
      simp only [composeOperation, hkind, composeDelete] at hs
      cases hcollect : (collectDeletion store names {} [op.key]).outcome with
      | error err => simp [hcollect, Except.map] at hs
      | ok deletion =>
        rw [hcollect, Except.map, Except.ok.injEq, Deletion.toStatement?] at hs
        split at hs
        · cases hs
        · rw [← Option.some.inj hs]
    simp [hnone, Operation.Targets, hkind]
  | save =>
    cases hcheck : Batch.check store [op.key] with
    | error err => simp [composeOperation, hkind, composeSave, hcheck, Except.map] at hs
    | ok u =>
      obtain ⟨parts, h⟩ := Batch.exists_parts (m := m) hnamed hcheck
      simp only [composeOperation, hkind, Batch.composeSave_eq hcheck] at hs ⊢
      obtain rfl : (Batch.draft m store names [op.key]).clauses.toStatement = s := by
        simpa [Except.map] using hs
      have hreturns : (Batch.draft m store names [op.key]).clauses.toStatement.returns =
          parts.flatMap Part.returned := h.returned
      rw [hreturns, Operation.Targets, ← Batch.mem_mentioned]
      rw [List.flatMap_singleton] at h
      constructor
      · rintro ⟨name, hname, hreturned⟩
        exact ⟨hkind, (h.mem_returned hname).mp hreturned⟩
      · rintro ⟨-, hmentioned⟩
        obtain ⟨p, hp, hmention⟩ := h.mem_mentions.mp hmentioned
        have hname := h.entity p hp key hmention
        exact ⟨p.name, hname, (h.mem_returned hname).mpr hmentioned⟩

end GraphMapping
