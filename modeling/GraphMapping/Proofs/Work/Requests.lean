import GraphMapping.Work.Basic

/-!
# Requests and their log

Which operations are pending depends on the requests that were made, on their order, and on how the
entities looked at the time of each. So what is expected of pending work is stated against a log:
the accepted requests, each together with the work and the store it was made at. A refused request
changes nothing and is not in the log.

The log lists the latest request first. Then the last request on an entity is the first entry that
is about it, and what happened since is everything in front of that entry.

## Main definitions

* `Request`, `LogEntry`, `Log`: what is asked for, and what has been accepted.
* `Log.last?`, `Log.since`: the last request on an entity, and the entries after it.
* `LogEntry.SavesEqual`, `LogEntry.DropsSave`: the requests that other operations give way to.
* `Session`: pending work with its log, while the entities are edited in between.

## Main results

* `Log.last?_cons_of_ne`, `Log.since_cons_of_ne`: an entry about another entity.
-/

namespace GraphMapping

/-- What a unit of work is asked for. -/
inductive Request where
  | save (m : Moment) (key : EntityKey)
  | delete (key : EntityKey) (detach : Bool)

namespace Request

/-- The entity that the request is about. -/
def key : Request → EntityKey
  | save _ key => key
  | delete key _ => key

/-- The operation that is asked for. -/
def kind : Request → OperationKind
  | save .. => .save
  | delete _ detach => .delete detach

/-- The work and the store after the request. -/
def apply (work : Work) (store : Store) : Request → Except MapperError (Work × Store)
  | save m key => work.save m store key
  | delete key detach => work.delete store key detach

end Request

/-- An accepted request with the work and the store it was made at. -/
structure LogEntry where
  request : Request
  work : Work
  store : Store

namespace LogEntry

/-- The entry is a save of another entity that the entity of `key` is equal to at that time. -/
def SavesEqual (entry : LogEntry) (key : EntityKey) : Prop :=
  match entry.request with
  | .save m saved =>
    ∃ e other, entry.store.get? key = some e ∧ entry.store.get? saved = some other ∧
      e.sameAs m other = true
  | .delete .. => False

/-- The entry makes the pending save of an entity give way because the two entities are equal, and
the entity is not an end of the one that is saved instead. -/
def DropsSave (entry : LogEntry) (key : EntityKey) : Prop :=
  entry.SavesEqual key ∧ (∃ op ∈ entry.work.operations, op.key = key ∧ op.kind = .save) ∧
    ∀ e, entry.store.get? entry.request.key = some e → key ∉ e.endpointKeys

end LogEntry

/-- The accepted requests, the latest first. -/
abbrev Log := List LogEntry

namespace Log

/-- The operation that was last asked for on an entity. -/
def last? (log : Log) (key : EntityKey) : Option OperationKind :=
  (log.find? fun entry => entry.request.key = key).map (·.request.kind)

/-- The entries after the last one on an entity. -/
def since (log : Log) (key : EntityKey) : Log :=
  log.takeWhile fun entry => entry.request.key ≠ key

variable {log : Log} {entry : LogEntry} {key : EntityKey}

theorem last?_cons_self (log : Log) (entry : LogEntry) :
    last? (entry :: log) entry.request.key = some entry.request.kind := by
  simp [last?]

theorem last?_cons_of_ne (h : key ≠ entry.request.key) :
    last? (entry :: log) key = log.last? key := by
  simp [last?, h.symm]

theorem since_cons_of_ne (h : key ≠ entry.request.key) :
    since (entry :: log) key = entry :: log.since key := by
  simp [since, h.symm]

end Log

/-! ### Sessions -/

/-- Pending work, the store it is about, and the accepted requests. -/
structure Session where
  work : Work := .empty
  store : Store
  log : Log := []

/-- What happens during a session. Between requests the entities may change in any way, and new ones
may be stored. -/
inductive Act where
  | request (r : Request)
  | edit (key : EntityKey) (change : Entity → Entity)
  | insert (e : Entity)

namespace Session

/-- The session after one act. A refused request leaves it as it is. -/
def act (s : Session) : Act → Session
  | .request r =>
    match r.apply s.work s.store with
    | .ok (work, store) => ⟨work, store, ⟨r, s.work, s.store⟩ :: s.log⟩
    | .error _ => s
  | .edit key change => { s with store := s.store.modify key change }
  | .insert e => { s with store := (s.store.insert e).2 }

/-- The session after some acts. -/
def run (s : Session) (acts : List Act) : Session := acts.foldl act s

end Session

end GraphMapping
