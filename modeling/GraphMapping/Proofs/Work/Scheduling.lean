import GraphMapping.Proofs.Work.Accounting

/-!
# Saves and deletes keep the account

A save makes the operations on its entity and on equal ones give way, and takes over the saves of
its ends; a delete makes the operation on its entity give way and is forgotten by all others. Both
are replacements in the sense of the accounting, so every session keeps the account.

The log of a session is read at the end of it: `last?` tells the last request on an entity, and
`since` what was requested after it.

## Main definitions

* `Work.leftBySave`, `Work.orphanedBySave`, `Work.savingOperation`: what a save does.
* `Work.leftByDelete`, `Work.orphanedByDelete`: what a delete does.

## Main results

* `Work.Accounted.save`, `Work.Accounted.delete`: requests keep the invariant.
* `Session.accounted_run`: so does every session.
* `Session.pending_matches_log`: pending operations and the log of requests agree.
-/

namespace GraphMapping

namespace Work

variable {work work' : Work} {store store' : Store} {log : Log}

/-! ### Saves -/

/-- Give several stored entities a variable. -/
def defineAll (keys : List EntityKey) (p : Work × Store) : Work × Store :=
  keys.foldl (fun p k => p.1.define p.2 k) p

@[simp] theorem operations_defineAll (keys : List EntityKey) (p : Work × Store) :
    (defineAll keys p).1.operations = p.1.operations := by
  induction keys generalizing p with
  | nil => rfl
  | cons key rest ih => exact (ih _).trans (operations_define p.1 p.2 key)

@[simp] theorem size_defineAll (keys : List EntityKey) (p : Work × Store) :
    (defineAll keys p).2.size = p.2.size := by
  induction keys generalizing p with
  | nil => rfl
  | cons key rest ih => exact (ih _).trans (size_define p.1 p.2 key)

section Save

variable (work : Work) (m : Moment) (store : Store) (key : EntityKey) (e : Entity)

/-- The operations that a save makes give way. -/
def givenWay : List Operation :=
  work.operations.filter (givesWay m store key e e.endpointKeys)

/-- The operations that a save leaves alone. -/
def leftBySave : List Operation :=
  work.operations.filter (not ∘ givesWay m store key e e.endpointKeys)

/-- The absorbed saves that neither the new save nor the entity itself covers. -/
def orphanedBySave : List EntityKey :=
  ((work.givenWay m store key e).flatMap (·.absorbed)).filter fun k =>
    k ∉ e.endpointKeys && k ≠ key

/-- The operation that a save schedules. -/
def savingOperation : Operation where
  key
  kind := .save
  absorbed := ((work.givenWay m store key e).flatMap (coveredBy e.endpointKeys)).eraseDups

/-- The work and the store before the requested save is scheduled. -/
def beforeSaving : Work × Store :=
  defineAll (key :: e.endpointKeys)
    (reschedule { work with operations := work.leftBySave m store key e } store
      (work.orphanedBySave m store key e))

variable {work m store key e}

theorem save_eq (h : store.get? key = some e) :
    work.save m store key =
      .ok ({ (work.beforeSaving m store key e).1 with
        operations := (work.beforeSaving m store key e).1.operations ++
          [work.savingOperation m store key e] }, (work.beforeSaving m store key e).2) := by
  simp only [Work.save, h, List.partition_eq_filter_filter]
  rfl

/-- An operation gives way when it is on the entity or on an equal one, or saves an end. -/
theorem givesWay_iff {ends : List EntityKey} {o : Operation} :
    givesWay m store key e ends o = true ↔
      o.key = key ∨ (∃ old, store.get? o.key = some old ∧ old.sameAs m e = true) ∨
        (o.kind = .save ∧ o.key ∈ ends) := by
  simp [givesWay, Option.any_eq_true, or_assoc]

/-- What nobody covers is what was absorbed, apart from the ends and the entity itself. -/
theorem mem_orphanedBySave {k : EntityKey} :
    k ∈ work.orphanedBySave m store key e ↔
      (∃ o ∈ work.givenWay m store key e, k ∈ o.absorbed) ∧ k ∉ e.endpointKeys ∧ k ≠ key := by
  simp [orphanedBySave]

/-- The new save stands for the ends whose saves gave way or were absorbed by what gave way. -/
theorem mem_absorbed_savingOperation {k : EntityKey} :
    k ∈ (work.savingOperation m store key e).absorbed ↔
      (∃ o ∈ work.givenWay m store key e, (o.kind = .save ∧ o.key = k) ∨ k ∈ o.absorbed) ∧
        k ∈ e.endpointKeys := by
  have hcovers : ∀ o : Operation, k ∈ coveredBy e.endpointKeys o ↔
      ((o.kind = .save ∧ o.key = k) ∨ k ∈ o.absorbed) ∧ k ∈ e.endpointKeys := by
    intro o
    rw [coveredBy, List.mem_filter, List.mem_append, decide_eq_true_eq]
    refine and_congr_left' (or_congr_left ?_)
    split
    · simp [*, eq_comm]
    · simp [*]
  rw [savingOperation, List.mem_eraseDups, List.mem_flatMap]
  simp only [hcovers, ← and_assoc, ← exists_and_right]

/-- How a save changes what is pending. Everything that gives way is in the two filters, and the
rest of the argument is the same as for a delete. -/
theorem replacement_save (hacc : Accounted log work store) (h : store.get? key = some e) :
    Replacement log work store (.save m key) (work.leftBySave m store key e)
      (work.orphanedBySave m store key e) (work.savingOperation m store key e) where
  stored := by simp [Request.key, h]
  distinct := hacc.distinct.sublist (List.filter_sublist.map _)
  kept_of o ho := ⟨o, (List.mem_filter.mp ho).1, rfl, rfl, rfl, fun _ hk => hk⟩
  kept_ne o ho := by
    have hstays := (List.mem_filter.mp ho).2
    rintro heq
    simp [givesWay, heq, Request.key] at hstays
  kept_free _ _ _ := rfl
  orphan_of k hk := by
    obtain ⟨⟨o, ho, hmem⟩, -⟩ := mem_orphanedBySave.mp hk
    exact ⟨o, (List.mem_filter.mp ho).1, hmem⟩
  orphan_ne k hk := (mem_orphanedBySave.mp hk).2.2
  op_key := rfl
  op_kind := rfl
  op_state := rfl
  op_absorbed k hk := by
    refine ⟨rfl, fun _ => ?_⟩
    obtain ⟨⟨o, ho, hstands⟩, -⟩ := mem_absorbed_savingOperation.mp hk
    have hpending := (List.mem_filter.mp ho).1
    rcases hstands with ⟨hkind, rfl⟩ | habs
    · rw [hacc.requested o hpending, hkind]
    · exact (hacc.absorbed o hpending k habs).2
  saves k hne hwill hkeeps := by
    obtain ⟨o, ho, hkind, hstands⟩ := hwill
    by_cases hgives : givesWay m store key e e.endpointKeys o = true
    · have hgiven : o ∈ work.givenWay m store key e := List.mem_filter.mpr ⟨ho, hgives⟩
      by_cases hend : k ∈ e.endpointKeys
      · -- the relationship that is saved absorbs the save of its end
        have hstands' : (o.kind = .save ∧ o.key = k) ∨ k ∈ o.absorbed :=
          hstands.imp_left fun hkey => ⟨hkind, hkey⟩
        exact .inr (.inr (mem_absorbed_savingOperation.mpr ⟨⟨o, hgiven, hstands'⟩, hend⟩))
      · rcases hstands with rfl | habs
        · -- it gives way without being an end, so only as an equal entity
          obtain hkey | ⟨old, hold, hsame⟩ | ⟨-, hmem⟩ := givesWay_iff.mp hgives
          · exact absurd hkey hne
          · refine absurd ⟨⟨old, e, hold, h, hsame⟩, ⟨o, ho, rfl, hkind⟩, fun e' he' => ?_⟩ hkeeps
            obtain rfl := Option.some.inj (h.symm.trans he')
            exact hend
          · exact absurd hmem hend
        · exact .inr (.inl (mem_orphanedBySave.mpr ⟨⟨o, hgiven, habs⟩, hend, hne⟩))
    · exact .inl ⟨o, List.mem_filter.mpr ⟨ho, by simpa using hgives⟩, hkind, hstands⟩
  deletes o ho hne hkind hkeeps := by
    have hstays : ¬ givesWay m store key e e.endpointKeys o = true := by
      rw [givesWay_iff]
      rintro (hkey | ⟨old, hold, hsame⟩ | ⟨hsave, -⟩)
      · exact hne hkey
      · exact hkeeps ⟨old, e, hold, h, hsame⟩
      · exact hkind hsave
    exact ⟨o, List.mem_filter.mpr ⟨ho, by simpa using hstays⟩, rfl, rfl⟩

namespace Accounted

theorem save (hacc : Accounted log work store) {m : Moment} {key : EntityKey}
    (h : work.save m store key = .ok (work', store')) :
    Accounted (⟨.save m key, work, store⟩ :: log) work' store' := by
  cases hkey : store.get? key with
  | none => simp [Work.save, hkey] at h
  | some e =>
    rw [save_eq hkey] at h
    obtain ⟨rfl, rfl⟩ := Prod.mk.inj (Except.ok.inj h)
    have hsize : (work.beforeSaving m store key e).2.size = store.size := by
      obtain ⟨-, -, hsize, -⟩ := reschedule_operations
        { work with operations := work.leftBySave m store key e } store
        (work.orphanedBySave m store key e)
      rw [beforeSaving, size_defineAll, hsize]
    refine hacc.replace (replacement_save hacc hkey) work.names rfl (Nat.le_of_eq hsize.symm) ?_
    rw [beforeSaving, operations_defineAll]

end Accounted

end Save

/-! ### Deletes -/

section Delete

variable (work : Work) (store : Store) (key : EntityKey)

/-- The operations without the absorbed save of an entity. -/
def forgetting : List Operation :=
  work.operations.map fun op => { op with absorbed := op.absorbed.filter (· ≠ key) }

/-- The operations that a delete leaves alone. -/
def leftByDelete : List Operation := (work.forgetting key).filter (not ∘ (·.key = key))

/-- The saves that the replaced operations had absorbed. -/
def orphanedByDelete : List EntityKey :=
  ((work.forgetting key).filter (·.key = key)).flatMap (·.absorbed)

/-- The work and the store before the requested delete is scheduled. -/
def beforeDeleting : Work × Store :=
  reschedule { (work.define store key).1 with operations := work.leftByDelete key }
    (work.define store key).2 (work.orphanedByDelete key)

variable {work store key}

theorem delete_eq {e : Entity} (h : store.get? key = some e) (detach : Bool) :
    work.delete store key detach =
      .ok ({ (work.beforeDeleting store key).1 with
        operations := (work.beforeDeleting store key).1.operations ++
          [{ key, kind := .delete detach }] }, (work.beforeDeleting store key).2) := by
  simp only [Work.delete, h, List.partition_eq_filter_filter, operations_define]
  rfl

theorem mem_forgetting {o : Operation} (h : o ∈ work.forgetting key) :
    ∃ old ∈ work.operations, o.key = old.key ∧ o.kind = old.kind ∧ o.state = old.state ∧
      o.absorbed = old.absorbed.filter (· ≠ key) := by
  obtain ⟨old, hold, rfl⟩ := List.mem_map.mp h
  exact ⟨old, hold, rfl, rfl, rfl, rfl⟩

/-- What nobody covers is what the operation on the entity had absorbed, apart from itself. -/
theorem mem_orphanedByDelete {k : EntityKey} :
    k ∈ work.orphanedByDelete key ↔
      (∃ o ∈ work.operations, o.key = key ∧ k ∈ o.absorbed) ∧ k ≠ key := by
  simp [orphanedByDelete, forgetting, ← exists_and_right, and_assoc]

/-- How a delete changes what is pending. It makes the pending operations forget the entity first,
so none of them can bring a save of it back. -/
theorem replacement_delete (hacc : Accounted log work store) {e : Entity}
    (h : store.get? key = some e) (detach : Bool) :
    Replacement log work store (.delete key detach) (work.leftByDelete key)
      (work.orphanedByDelete key) { key, kind := .delete detach } where
  stored := by simp [Request.key, h]
  distinct := by
    have hkeys : (work.forgetting key).map (·.key) = work.operations.map (·.key) := by
      simp [forgetting, Function.comp_def]
    exact (hkeys ▸ hacc.distinct).sublist (List.filter_sublist.map _)
  kept_of o ho := by
    obtain ⟨old, hold, hkey, hkind, hstate, habs⟩ := mem_forgetting (List.mem_filter.mp ho).1
    exact ⟨old, hold, hkey, hkind, hstate, fun k hk => (List.mem_filter.mp (habs ▸ hk)).1⟩
  kept_ne o ho := by simpa [Request.key] using (List.mem_filter.mp ho).2
  kept_free o ho hmem := by
    obtain ⟨old, -, -, -, -, habs⟩ := mem_forgetting (List.mem_filter.mp ho).1
    simp [habs, Request.key] at hmem
  orphan_of k hk := by
    obtain ⟨⟨o, ho, -, hmem⟩, -⟩ := mem_orphanedByDelete.mp hk
    exact ⟨o, ho, hmem⟩
  orphan_ne k hk := (mem_orphanedByDelete.mp hk).2
  op_key := rfl
  op_kind := rfl
  op_state := rfl
  op_absorbed k hk := by simp at hk
  saves k hne hwill _ := by
    obtain ⟨o, ho, hkind, hstands⟩ := hwill
    have hforgot : { o with absorbed := o.absorbed.filter (· ≠ key) } ∈ work.forgetting key :=
      List.mem_map_of_mem ho
    have hstands' : o.key = k ∨ k ∈ o.absorbed.filter (· ≠ key) :=
      hstands.imp_right fun habs => List.mem_filter.mpr ⟨habs, by simpa [Request.key] using hne⟩
    by_cases hkey : o.key = key
    · have habs : k ∈ o.absorbed := hstands.resolve_left fun heq => hne (heq.symm.trans hkey)
      exact .inr (.inl (mem_orphanedByDelete.mpr ⟨⟨o, ho, hkey, habs⟩, hne⟩))
    · exact .inl ⟨_, List.mem_filter.mpr ⟨hforgot, by simpa⟩, hkind, hstands'⟩
  deletes o ho hne _ _ :=
    ⟨_, List.mem_filter.mpr ⟨List.mem_map_of_mem ho, by simpa [Request.key] using hne⟩, rfl, rfl⟩

theorem Accounted.delete (hacc : Accounted log work store) {detach : Bool}
    (h : work.delete store key detach = .ok (work', store')) :
    Accounted (⟨.delete key detach, work, store⟩ :: log) work' store' := by
  cases hkey : store.get? key with
  | none => simp [Work.delete, hkey] at h
  | some e =>
    rw [delete_eq hkey] at h
    obtain ⟨rfl, rfl⟩ := Prod.mk.inj (Except.ok.inj h)
    have hsize : (work.beforeDeleting store key).2.size = store.size := by
      obtain ⟨-, -, hsize, -⟩ := reschedule_operations
        { (work.define store key).1 with operations := work.leftByDelete key }
        (work.define store key).2 (work.orphanedByDelete key)
      rw [beforeDeleting, hsize, size_define]
    exact hacc.replace (replacement_delete hacc hkey detach) (work.define store key).1.names
      (size_define work store key) (Nat.le_of_eq hsize.symm) rfl

end Delete

theorem Accounted.request (hacc : Accounted log work store) {r : Request}
    (h : r.apply work store = .ok (work', store')) :
    Accounted (⟨r, work, store⟩ :: log) work' store' := by
  cases r with
  | save m key => exact hacc.save h
  | delete key detach => exact hacc.delete h

end Work

/-! ### Sessions -/

namespace Session

theorem isOk_apply {r : Request} {work : Work} {store : Store} (h : (store.get? r.key).isSome) :
    ∃ work' store', r.apply work store = .ok (work', store') := by
  obtain ⟨e, he⟩ := Option.isSome_iff_exists.mp h
  cases r with
  | save m key => exact ⟨_, _, Work.save_eq he⟩
  | delete key detach => exact ⟨_, _, Work.delete_eq he detach⟩

theorem apply_unknown {r : Request} {work : Work} {store : Store} (h : store.get? r.key = none) :
    r.apply work store = .error (.unknownEntity r.key) := by
  cases r with
  | save m key => simp [Request.apply, Request.key, Work.save, show store.get? key = none from h]
  | delete key detach => simp [Request.apply, Request.key, Work.delete, show store.get? key = none from h]

theorem accounted_act {s : Session} (h : s.work.Accounted s.log s.store) (a : Act) :
    (s.act a).work.Accounted (s.act a).log (s.act a).store := by
  cases a with
  | request r =>
    rw [act]
    split
    · rename_i hr
      exact h.request hr
    · exact h
  | edit key change => exact h.of_size_le (Nat.le_of_eq (Store.size_modify ..).symm) rfl
  | insert e => exact h.of_size_le (by simp [act]) rfl

theorem accounted_run {s : Session} (h : s.work.Accounted s.log s.store) (acts : List Act) :
    (s.run acts).work.Accounted (s.run acts).log (s.run acts).store := by
  induction acts generalizing s with
  | nil => exact h
  | cons a rest ih => exact ih (accounted_act h a)

/-- **Pending operations and requests agree.** Whatever is requested in whatever order, and however
the entities change in between:

* no two operations are on one entity, and all of them are scheduled ones on stored entities;
* a pending delete was the last request on its entity, and no save stands for that entity;
* a save that was the last request is pending or absorbed, unless it was dropped since then for an
  equal entity that it is no end of;
* a delete that was the last request is pending, unless an equal entity was saved since then;
* what a pending save is on, or an operation has absorbed, was last asked to be saved;
* a request on an entity that is not stored is refused and changes nothing, and every other request
  is accepted. -/
theorem pending_matches_log (store : Store) (acts : List Act) :
    let s := run { store } acts
    ((s.work.operations.map (·.key)).Nodup ∧
      ∀ op ∈ s.work.operations, (s.store.get? op.key).isSome ∧ op.state = .scheduled) ∧
    (∀ op ∈ s.work.operations, ∀ detach, op.kind = .delete detach →
      s.log.last? op.key = some (.delete detach) ∧
        ∀ other ∈ s.work.operations, op.key ∉ other.absorbed) ∧
    (∀ key, s.log.last? key = some .save →
      (∀ entry ∈ s.log.since key, ¬ entry.DropsSave key) → s.work.WillSave key) ∧
    (∀ key detach, s.log.last? key = some (.delete detach) →
      (∀ entry ∈ s.log.since key, ¬ entry.SavesEqual key) →
        ∃ op ∈ s.work.operations, op.key = key ∧ op.kind = .delete detach) ∧
    (∀ op ∈ s.work.operations, ∀ key, op.kind = .save ∧ op.key = key ∨ key ∈ op.absorbed →
      s.log.last? key = some .save) ∧
    ∀ r : Request,
      ((s.store.get? r.key).isSome → ∃ work' store', r.apply s.work s.store = .ok (work', store')) ∧
      (s.store.get? r.key = none →
        r.apply s.work s.store = .error (.unknownEntity r.key) ∧ s.act (.request r) = s) := by
  intro s
  have h : s.work.Accounted s.log s.store :=
    accounted_run (Work.Accounted.empty store rfl) acts
  refine ⟨⟨h.distinct, fun op hop => ⟨h.stored op.key ?_, h.scheduled op hop⟩⟩, ?_, h.saved,
    h.deleted, ?_, fun r => ⟨isOk_apply, fun hnone => ?_⟩⟩
  · rw [h.requested op hop]
    rfl
  · intro op hop detach hkind
    have hlast := h.requested op hop
    rw [hkind] at hlast
    refine ⟨hlast, fun other hother habs => ?_⟩
    have hsave := (h.absorbed other hother op.key habs).2
    rw [hlast] at hsave
    exact OperationKind.noConfusion (Option.some.inj hsave)
  · rintro op hop key (⟨hkind, rfl⟩ | habs)
    · rw [h.requested op hop, hkind]
    · exact (h.absorbed op hop key habs).2
  · have hrefused : r.apply s.work s.store = .error (.unknownEntity r.key) := apply_unknown hnone
    refine ⟨hrefused, ?_⟩
    rw [act, hrefused]

end Session

end GraphMapping
