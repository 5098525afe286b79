import GraphMapping.Proofs.Statement.Variables
import GraphMapping.Proofs.Work.Scheduling

/-!
# Requests hand out variables

A request gives variables to the entities it schedules operations on and to the ends of a
relationship to save, and forgets none. So variables stay distinct from one request to the next.

Whatever a request does to variables, it does by giving single entities their variable. This is said
once, as an induction principle: `Work.request_induction`.

## Main definitions

* `Work.HandsOut`: variables have been handed out, and stay distinct.

## Main results

* `Work.request_induction`: what giving a variable keeps, a request keeps.
* `Work.handsOut_request`: that is what an accepted request does.
-/

namespace GraphMapping

namespace Work

variable {work work' : Work} {store store' : Store}

/-! ### Giving variables one by one -/

section Define

variable {P : Names → Store → Prop}
  (hdefine : ∀ names store key e name names', store.get? key = some e →
    names.define e = (name, e.bindVariable name, names') → P names store →
      P names' (store.modify key fun _ => e.bindVariable name))

include hdefine

theorem define_induction (work : Work) (store : Store) (key : EntityKey) (h : P work.names store) :
    P (work.define store key).1.names (work.define store key).2 := by
  rw [define]
  cases he : store.get? key with
  | none => exact h
  | some e =>
    obtain ⟨name, names, hnext⟩ := work.names.exists_define e
    simp only [hnext]
    exact hdefine work.names store key e name names he hnext h

theorem defineAll_induction (keys : List EntityKey) (p : Work × Store) (h : P p.1.names p.2) :
    P (defineAll keys p).1.names (defineAll keys p).2 := by
  induction keys generalizing p with
  | nil => exact h
  | cons key rest ih => exact ih _ (define_induction hdefine p.1 p.2 key h)

theorem reschedule_induction (work : Work) (store : Store) (keys : List EntityKey)
    (h : P work.names store) :
    P (reschedule work store keys).1.names (reschedule work store keys).2 := by
  induction keys generalizing work store with
  | nil => exact h
  | cons key rest ih =>
    rw [reschedule]
    split
    · exact ih work store h
    · exact ih _ _ (define_induction hdefine work store key h)

/-- What giving one entity its variable keeps, every accepted request keeps. -/
theorem request_induction {r : Request} (happly : r.apply work store = .ok (work', store'))
    (h : P work.names store) : P work'.names store' := by
  cases r with
  | save m key =>
    cases he : store.get? key with
    | none => simp [Request.apply, Work.save, he] at happly
    | some e =>
      rw [Request.apply, save_eq he] at happly
      obtain ⟨rfl, rfl⟩ := Prod.mk.inj (Except.ok.inj happly)
      have hreschedule := reschedule_induction hdefine
        { work with operations := work.leftBySave m store key e } store
        (work.orphanedBySave m store key e) h
      exact defineAll_induction hdefine (key :: e.endpointKeys) _ hreschedule
  | delete key detach =>
    cases he : store.get? key with
    | none => simp [Request.apply, Work.delete, he] at happly
    | some e =>
      rw [Request.apply, delete_eq he] at happly
      obtain ⟨rfl, rfl⟩ := Prod.mk.inj (Except.ok.inj happly)
      exact reschedule_induction hdefine
        { (work.define store key).1 with operations := work.leftByDelete key } _
        (work.orphanedByDelete key) (define_induction hdefine work store key h)

end Define

/-! ### Requests -/

/-- From the first work and store to the second ones, variables have been handed out, and they are
distinct if they were. -/
def HandsOut (p p' : Work × Store) : Prop :=
  Naming p.2 p.1.names p'.2 p'.1.names ∧ (p.2.NamedBy p.1.names → p'.2.NamedBy p'.1.names)

/-- An accepted request only hands out variables, and they stay distinct. -/
theorem handsOut_request {r : Request} (h : r.apply work store = .ok (work', store')) :
    HandsOut (work, store) (work', store') := by
  refine request_induction (P := fun names' store' => Naming store work.names store' names' ∧
    (store.NamedBy work.names → store'.NamedBy names')) ?_ h ⟨.refl store work.names, id⟩
  rintro names store₁ key e name names' he hdefine ⟨hnaming, hnamed⟩
  exact ⟨hnaming.trans (.define he hdefine), fun h => (hnamed h).define he hdefine⟩

end Work

end GraphMapping
