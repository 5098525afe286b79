import Mathlib.Data.List.Nodup
import GraphMapping.Proofs.Work.Requests

/-!
# What pending work accounts for

Five rules decide what is pending: a request replaces the operation on the same entity, a save
replaces those on equal entities, a relationship's save absorbs the saves of its ends, it inherits
what the operations it replaces had absorbed, and what nobody inherits is scheduled again.
`Accounted` is what they keep true together. It compares the pending operations with the log of
requests, never with how they came about, so a change of the entities between two requests cannot
break it.

Both requests have one shape: some operations stay, the saves that lost the operation they were
absorbed by come back, and the requested operation goes to the end. `Accounted.replace` is proved of
that shape.

## Main definitions

* `Work.WillSave`: a save of the entity is pending or absorbed by a pending save.
* `Work.Accounted`: the invariant.
* `Work.Replacement`: what a request changes.

## Main results

* `Work.reschedule_operations`: which saves are scheduled again.
* `Work.Accounted.replace`: a request of that shape keeps the invariant.
-/

namespace GraphMapping

/-! ### Keys of a store -/

namespace Store

theorem isSome_get?_iff {store : Store} {key : EntityKey} :
    (store.get? key).isSome ↔ key.index < store.size := by
  simp [get?, size]

@[simp] theorem size_insert (store : Store) (e : Entity) :
    (store.insert e).2.size = store.size + 1 := by
  simp [insert, size]

end Store

namespace Work

variable {work work' : Work} {store store' : Store} {log : Log}

/-! ### Scheduling again -/

@[simp] theorem operations_define (work : Work) (store : Store) (key : EntityKey) :
    (work.define store key).1.operations = work.operations := by
  unfold define
  split <;> rfl

@[simp] theorem size_define (work : Work) (store : Store) (key : EntityKey) :
    (work.define store key).2.size = store.size := by
  unfold define
  split
  · rfl
  · exact Store.size_modify ..

/-- A save that is scheduled again. -/
def pendingSave (key : EntityKey) : Operation := { key, kind := .save }

/-- Keys are scheduled once, in order, unless an operation on them is pending, and none of those
that are stored is left without one. -/
theorem reschedule_operations (work : Work) (store : Store) (keys : List EntityKey) :
    ∃ added : List EntityKey,
      (reschedule work store keys).1.operations = work.operations ++ added.map pendingSave ∧
      (reschedule work store keys).2.size = store.size ∧
      added ⊆ keys ∧
      ((work.operations.map (·.key)).Nodup → (work.operations.map (·.key) ++ added).Nodup) ∧
      ∀ key ∈ keys, (store.get? key).isSome → key ∈ work.operations.map (·.key) ∨ key ∈ added := by
  induction keys generalizing work store with
  | nil => exact ⟨[], by simp [reschedule], rfl, by simp, by simp, by simp⟩
  | cons key rest ih =>
    rw [reschedule]
    split
    · rename_i hskip
      obtain ⟨added, hops, hsize, hsub, hnodup, hcover⟩ := ih work store
      refine ⟨added, hops, hsize, List.Subset.trans hsub (List.subset_cons_self ..), hnodup, ?_⟩
      intro k hk hstored
      rcases List.mem_cons.mp hk with rfl | hk
      · simp only [Bool.or_eq_true, List.any_eq_true, decide_eq_true_eq] at hskip
        rcases hskip with ⟨op, hop, rfl⟩ | hnone
        · exact .inl (List.mem_map_of_mem hop)
        · simp [Option.isNone_iff_eq_none.mp hnone] at hstored
      · exact hcover k hk hstored
    · rename_i hfresh
      simp only [Bool.or_eq_true, List.any_eq_true, decide_eq_true_eq, not_or] at hfresh
      have hnot : key ∉ work.operations.map (·.key) := by
        intro hmem
        obtain ⟨op, hop, heq⟩ := List.mem_map.mp hmem
        exact hfresh.1 ⟨op, hop, heq⟩
      obtain ⟨added, hops, hsize, hsub, hnodup, hcover⟩ :=
        ih { (work.define store key).1 with
          operations := (work.define store key).1.operations ++ [pendingSave key] }
          (work.define store key).2
      have hkeys : ((work.define store key).1.operations ++ [pendingSave key]).map (·.key) =
          work.operations.map (·.key) ++ [key] := by
        simp [pendingSave]
      rw [hkeys] at hnodup hcover
      refine ⟨key :: added, hops.trans (by simp), hsize.trans (by simp),
        List.cons_subset_cons key hsub, fun hdistinct => ?_, fun k hk hstored => ?_⟩
      · rw [← List.concat_eq_append] at hnodup
        simpa using hnodup (hdistinct.concat hnot)
      · rcases List.mem_cons.mp hk with rfl | hk
        · exact .inr (List.mem_cons_self ..)
        · have hstored' : ((work.define store key).2.get? k).isSome := by
            rw [Store.isSome_get?_iff] at hstored ⊢
            rwa [size_define]
          rcases hcover k hk hstored' with hmem | hmem
          · rcases List.mem_append.mp hmem with hmem | hmem
            · exact .inl hmem
            · exact .inr (List.mem_singleton.mp hmem ▸ List.mem_cons_self ..)
          · exact .inr (List.mem_cons_of_mem _ hmem)

/-! ### The invariant -/

/-- A save of the entity is pending, or a pending save stands for it. -/
def WillSave (work : Work) (key : EntityKey) : Prop :=
  ∃ op ∈ work.operations, op.kind = .save ∧ (op.key = key ∨ key ∈ op.absorbed)

/-- The pending operations are what the requests ask for. -/
structure Accounted (log : Log) (work : Work) (store : Store) : Prop where
  /-- Requests are about stored entities. -/
  stored : ∀ key, (log.last? key).isSome → (store.get? key).isSome
  /-- No two operations are on one entity. -/
  distinct : (work.operations.map (·.key)).Nodup
  scheduled : ∀ op ∈ work.operations, op.state = .scheduled
  /-- A pending operation is the one last asked for. -/
  requested : ∀ op ∈ work.operations, log.last? op.key = some op.kind
  /-- Only saves absorb, and only what was last asked to be saved. -/
  absorbed : ∀ op ∈ work.operations, ∀ key ∈ op.absorbed,
    op.kind = .save ∧ log.last? key = some .save
  /-- A save stays unless it is dropped for an equal entity. -/
  saved : ∀ key, log.last? key = some .save →
    (∀ entry ∈ log.since key, ¬ entry.DropsSave key) → work.WillSave key
  /-- A delete stays unless an equal entity is saved. -/
  deleted : ∀ key detach, log.last? key = some (.delete detach) →
    (∀ entry ∈ log.since key, ¬ entry.SavesEqual key) →
      ∃ op ∈ work.operations, op.key = key ∧ op.kind = .delete detach

namespace Accounted

theorem empty (store : Store) (h : work.operations = []) : Accounted [] work store where
  stored key hkey := nomatch hkey
  distinct := by simp [h]
  scheduled := by simp [h]
  requested := by simp [h]
  absorbed := by simp [h]
  saved key hkey := nomatch hkey
  deleted key detach hkey := nomatch hkey

/-- The entities may change in any way as long as they stay stored. -/
theorem of_size_le (h : Accounted log work store) (hsize : store.size ≤ store'.size)
    (hops : work'.operations = work.operations) : Accounted log work' store' where
  stored key hkey := by
    have := Store.isSome_get?_iff.mp (h.stored key hkey)
    exact Store.isSome_get?_iff.mpr (by omega)
  distinct := hops ▸ h.distinct
  scheduled := hops ▸ h.scheduled
  requested := hops ▸ h.requested
  absorbed := hops ▸ h.absorbed
  saved key hkey hkept := by
    obtain ⟨op, hop, hsave⟩ := h.saved key hkey hkept
    exact ⟨op, hops ▸ hop, hsave⟩
  deleted := hops ▸ h.deleted

end Accounted

/-! ### Replacing operations -/

/-- How a request changes what is pending: the operations in `kept` stay, possibly with less
absorbed, the saves of `orphans` were absorbed by operations that do not stay, and `op` is new. -/
structure Replacement (log : Log) (work : Work) (store : Store) (r : Request)
    (kept : List Operation) (orphans : List EntityKey) (op : Operation) : Prop where
  stored : (store.get? r.key).isSome
  distinct : (kept.map (·.key)).Nodup
  kept_of : ∀ o ∈ kept, ∃ old ∈ work.operations,
    o.key = old.key ∧ o.kind = old.kind ∧ o.state = old.state ∧ o.absorbed ⊆ old.absorbed
  kept_ne : ∀ o ∈ kept, o.key ≠ r.key
  kept_free : ∀ o ∈ kept, r.key ∈ o.absorbed → r.kind = .save
  orphan_of : ∀ k ∈ orphans, ∃ old ∈ work.operations, k ∈ old.absorbed
  orphan_ne : ∀ k ∈ orphans, k ≠ r.key
  op_key : op.key = r.key
  op_kind : op.kind = r.kind
  op_state : op.state = .scheduled
  op_absorbed : ∀ k ∈ op.absorbed, r.kind = .save ∧ (k ≠ r.key → log.last? k = some .save)
  /-- No save is lost but those that are dropped for an equal entity. -/
  saves : ∀ k, k ≠ r.key → work.WillSave k → ¬ LogEntry.DropsSave ⟨r, work, store⟩ k →
    (∃ o ∈ kept, o.kind = .save ∧ (o.key = k ∨ k ∈ o.absorbed)) ∨ k ∈ orphans ∨ k ∈ op.absorbed
  /-- No delete is lost but those of entities equal to a saved one. -/
  deletes : ∀ o ∈ work.operations, o.key ≠ r.key → o.kind ≠ .save →
    ¬ LogEntry.SavesEqual ⟨r, work, store⟩ o.key → ∃ o' ∈ kept, o'.key = o.key ∧ o'.kind = o.kind

namespace Replacement

variable {r : Request} {kept : List Operation} {orphans : List EntityKey} {op : Operation}

/-- The orphans that come back, and the pending operations with them. -/
theorem exists_added (h : Accounted log work store)
    (hrep : Replacement log work store r kept orphans op) (names : Names) {store₀ : Store}
    (hsize : store₀.size = store.size) :
    ∃ added : List EntityKey,
      (reschedule ⟨kept, names⟩ store₀ orphans).1.operations = kept ++ added.map pendingSave ∧
      (kept.map (·.key) ++ added).Nodup ∧
      (∀ k ∈ added, k ≠ r.key ∧ log.last? k = some .save) ∧
      ∀ k ∈ orphans, k ∈ kept.map (·.key) ∨ k ∈ added := by
  obtain ⟨added, hadd, -, hsub, hnodup, hcover⟩ :=
    reschedule_operations ⟨kept, names⟩ store₀ orphans
  have hlast : ∀ k ∈ orphans, log.last? k = some .save := by
    intro k hk
    obtain ⟨old, hold, hmem⟩ := hrep.orphan_of k hk
    exact (h.absorbed old hold k hmem).2
  refine ⟨added, hadd, hnodup hrep.distinct, fun k hk => ?_, fun k hk => hcover k hk ?_⟩
  · exact ⟨hrep.orphan_ne k (hsub hk), hlast k (hsub hk)⟩
  · have hrequested : (log.last? k).isSome := by rw [hlast k hk]; rfl
    have := Store.isSome_get?_iff.mp (h.stored k hrequested)
    exact Store.isSome_get?_iff.mpr (by omega)

theorem last?_kept (h : Accounted log work store)
    (hrep : Replacement log work store r kept orphans op) {o : Operation} (ho : o ∈ kept) :
    Log.last? (⟨r, work, store⟩ :: log) o.key = some o.kind := by
  obtain ⟨old, hold, hkey, hkind, -, -⟩ := hrep.kept_of o ho
  rw [Log.last?_cons_of_ne (hrep.kept_ne o ho), hkey, hkind]
  exact h.requested old hold

/-- What the operations that stay stand for was last asked to be saved. A delete of it would have
made them forget it, which is why only a save can be requested of what they still stand for. -/
theorem absorbed_kept (h : Accounted log work store)
    (hrep : Replacement log work store r kept orphans op) {o : Operation} (ho : o ∈ kept)
    {k : EntityKey} (hk : k ∈ o.absorbed) :
    o.kind = .save ∧ Log.last? (⟨r, work, store⟩ :: log) k = some .save := by
  obtain ⟨old, hold, -, hkind, -, hsub⟩ := hrep.kept_of o ho
  have hold' := h.absorbed old hold k (hsub hk)
  refine ⟨hkind.trans hold'.1, ?_⟩
  by_cases hne : k = r.key
  · rw [hne, ← hrep.kept_free o ho (hne ▸ hk)]
    exact Log.last?_cons_self log ⟨r, work, store⟩
  · rw [Log.last?_cons_of_ne hne]
    exact hold'.2

/-- So was what the new operation stands for. -/
theorem absorbed_new (hrep : Replacement log work store r kept orphans op) {k : EntityKey}
    (hk : k ∈ op.absorbed) :
    op.kind = .save ∧ Log.last? (⟨r, work, store⟩ :: log) k = some .save := by
  obtain ⟨hkind, hlast⟩ := hrep.op_absorbed k hk
  refine ⟨hrep.op_kind.trans hkind, ?_⟩
  by_cases hne : k = r.key
  · rw [hne, ← hkind]
    exact Log.last?_cons_self log ⟨r, work, store⟩
  · rw [Log.last?_cons_of_ne hne]
    exact hlast hne

/-- What is requested is stored, the entity of the new request included. -/
theorem stored_cons (h : Accounted log work store)
    (hrep : Replacement log work store r kept orphans op) {k : EntityKey}
    (hk : (Log.last? (⟨r, work, store⟩ :: log) k).isSome) : (store.get? k).isSome := by
  by_cases hne : k = r.key
  · exact hne ▸ hrep.stored
  · rw [Log.last?_cons_of_ne hne] at hk
    exact h.stored k hk

section Operations

variable {added : List EntityKey} (hops : work'.operations = kept ++ added.map pendingSave ++ [op])

include hops

theorem mem_operations {o : Operation} (ho : o ∈ work'.operations) :
    o ∈ kept ∨ (∃ k ∈ added, o = pendingSave k) ∨ o = op := by
  simp only [hops, List.mem_append, List.mem_map, List.mem_singleton] at ho
  rcases ho with (ho | ⟨k, hk, rfl⟩) | ho
  · exact .inl ho
  · exact .inr (.inl ⟨k, hk, rfl⟩)
  · exact .inr (.inr ho)

/-- The entity of the request has the new operation alone: what stays is on other entities, and so
are the saves that come back. -/
theorem nodup_keys (hrep : Replacement log work store r kept orphans op)
    (hdistinct : (kept.map (·.key) ++ added).Nodup) (hadded : ∀ k ∈ added, k ≠ r.key) :
    (work'.operations.map (·.key)).Nodup := by
  have hkeys : work'.operations.map (·.key) = (kept.map (·.key) ++ added).concat r.key := by
    simp [hops, pendingSave, Function.comp_def, hrep.op_key]
  rw [hkeys]
  refine hdistinct.concat fun hmem => ?_
  rcases List.mem_append.mp hmem with hkept | hback
  · obtain ⟨o, ho, heq⟩ := List.mem_map.mp hkept
    exact hrep.kept_ne o ho heq
  · exact hadded _ hback rfl

/-- A save that the request does not drop is still to be made. It may have been absorbed by an
operation that has just been replaced: then it is scheduled again, or the new operation takes it
over. -/
theorem willSave (h : Accounted log work store)
    (hrep : Replacement log work store r kept orphans op)
    (hcover : ∀ k ∈ orphans, k ∈ kept.map (·.key) ∨ k ∈ added) {k : EntityKey}
    (hne : k ≠ r.key) (hlast : log.last? k = some .save) (hwill : work.WillSave k)
    (hkeeps : ¬ LogEntry.DropsSave ⟨r, work, store⟩ k) : work'.WillSave k := by
  rcases hrep.saves k hne hwill hkeeps with ⟨o, ho, hsave⟩ | horphan | habs
  · exact ⟨o, by simp [hops, ho], hsave⟩
  · rcases hcover k horphan with hpending | hadded
    · -- an operation that is pending on an orphan is a save: a delete was asked for earlier
      obtain ⟨o, ho, rfl⟩ := List.mem_map.mp hpending
      have hkind := hrep.last?_kept h ho
      rw [Log.last?_cons_of_ne hne, hlast] at hkind
      exact ⟨o, by simp [hops, ho], (Option.some.inj hkind).symm, .inl rfl⟩
    · have hback : pendingSave k ∈ added.map pendingSave := List.mem_map_of_mem hadded
      exact ⟨pendingSave k, by simp [hops, hback], rfl, .inl rfl⟩
  · exact ⟨op, by simp [hops], (hrep.absorbed_new habs).1, .inr habs⟩

/-- An entity that was last asked to be saved will be: the new request is the last one for its own
entity, and for any other it leaves the save to be made. -/
theorem saved (h : Accounted log work store)
    (hrep : Replacement log work store r kept orphans op)
    (hcover : ∀ k ∈ orphans, k ∈ kept.map (·.key) ∨ k ∈ added) {k : EntityKey}
    (hk : Log.last? (⟨r, work, store⟩ :: log) k = some .save)
    (hkeeps : ∀ entry ∈ Log.since (⟨r, work, store⟩ :: log) k, ¬ entry.DropsSave k) :
    work'.WillSave k := by
  by_cases hne : k = r.key
  · refine ⟨op, by simp [hops], ?_, .inl (hrep.op_key.trans hne.symm)⟩
    rw [hne] at hk
    exact hrep.op_kind.trans (Option.some.inj ((Log.last?_cons_self log _).symm.trans hk))
  · rw [Log.last?_cons_of_ne hne] at hk
    rw [Log.since_cons_of_ne hne] at hkeeps
    have hwill := h.saved k hk fun entry hentry => hkeeps entry (List.mem_cons_of_mem _ hentry)
    exact willSave hops h hrep hcover hne hk hwill (hkeeps _ (List.mem_cons_self ..))

/-- The same for deletes, which no operation absorbs. -/
theorem deleted (h : Accounted log work store)
    (hrep : Replacement log work store r kept orphans op) {k : EntityKey} {detach : Bool}
    (hk : Log.last? (⟨r, work, store⟩ :: log) k = some (.delete detach))
    (hkeeps : ∀ entry ∈ Log.since (⟨r, work, store⟩ :: log) k, ¬ entry.SavesEqual k) :
    ∃ o ∈ work'.operations, o.key = k ∧ o.kind = .delete detach := by
  by_cases hne : k = r.key
  · rw [hne] at hk
    have hkind := Option.some.inj ((Log.last?_cons_self log _).symm.trans hk)
    exact ⟨op, by simp [hops], hrep.op_key.trans hne.symm, hrep.op_kind.trans hkind⟩
  · rw [Log.last?_cons_of_ne hne] at hk
    rw [Log.since_cons_of_ne hne] at hkeeps
    obtain ⟨o, ho, rfl, hkind⟩ := h.deleted k detach hk
      fun entry hentry => hkeeps entry (List.mem_cons_of_mem _ hentry)
    obtain ⟨o', ho', hkey, hkind'⟩ := hrep.deletes o ho hne (by simp [hkind])
      (hkeeps _ (List.mem_cons_self ..))
    exact ⟨o', by simp [hops, ho'], hkey, hkind'.trans hkind⟩

end Operations

end Replacement

/-- A request that replaces operations in this way, with the orphans scheduled again, keeps the
invariant. -/
theorem Accounted.replace (h : Accounted log work store) {r : Request} {kept : List Operation}
    {orphans : List EntityKey} {op : Operation}
    (hrep : Replacement log work store r kept orphans op) (names : Names) {store₀ : Store}
    (hstore₀ : store₀.size = store.size) (hsize : store.size ≤ store'.size)
    (hops : work'.operations =
      (reschedule ⟨kept, names⟩ store₀ orphans).1.operations ++ [op]) :
    Accounted (⟨r, work, store⟩ :: log) work' store' := by
  obtain ⟨added, hadd, hdistinct, hadded, hcover⟩ := hrep.exists_added h names hstore₀
  rw [hadd] at hops
  have hmem : ∀ o ∈ work'.operations, o ∈ kept ∨ (∃ k ∈ added, o = pendingSave k) ∨ o = op :=
    fun _ => Replacement.mem_operations hops
  constructor
  case stored =>
    intro k hk
    have := Store.isSome_get?_iff.mp (hrep.stored_cons h hk)
    exact Store.isSome_get?_iff.mpr (by omega)
  case distinct => exact Replacement.nodup_keys hops hrep hdistinct fun k hk => (hadded k hk).1
  case scheduled =>
    intro o ho
    rcases hmem o ho with ho | ⟨k, -, rfl⟩ | rfl
    · obtain ⟨old, hold, -, -, hstate, -⟩ := hrep.kept_of o ho
      exact hstate.trans (h.scheduled old hold)
    · rfl
    · exact hrep.op_state
  case requested =>
    intro o ho
    rcases hmem o ho with ho | ⟨k, hk, rfl⟩ | rfl
    · exact hrep.last?_kept h ho
    · obtain ⟨hne, hlast⟩ := hadded k hk
      exact (Log.last?_cons_of_ne hne).trans hlast
    · rw [hrep.op_key, hrep.op_kind]
      exact Log.last?_cons_self log ⟨r, work, store⟩
  case absorbed =>
    intro o ho k hk
    rcases hmem o ho with ho | ⟨k', -, rfl⟩ | rfl
    · exact hrep.absorbed_kept h ho hk
    · simp [pendingSave] at hk
    · exact hrep.absorbed_new hk
  case saved => exact fun k hk hkeeps => Replacement.saved hops h hrep hcover hk hkeeps
  case deleted => exact fun k detach hk hkeeps => Replacement.deleted hops h hrep hk hkeeps

end Work

end GraphMapping
