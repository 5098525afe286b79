import GraphMapping.Proofs.Mapper.Creations
import GraphMapping.Proofs.Statement.Creation
import GraphMapping.Proofs.Work.Scheduling

/-!
# Deletes that are undone

A delete takes the id of its entity away. The entity stays stored, and relationships may still have
it as an end. A save of such a relationship writes its ends together with it, as new nodes where
they have no id: so a save behind the delete brings the entity back. In front of the delete it
does no harm, and a save of the entity itself cannot be pending next to its delete.

Whether a delete lasts can therefore be read off the pending operations: it does exactly if no
relationship that has the entity as an end is saved behind it. When a request was made does not
matter, nor which entity absorbed whose save, only the order of what is pending in the end.

## Main definitions

* `Mapper.Accounted`: the pending work accounts for some requests.
* `Operation.Joins`: the operation saves a relationship that has the entity as an end.
* `Mapper.DeletesLast`: which deletes last.

## Main results

* `Mapper.accounted_run`: pending work stays accounted for, whatever is done with a mapper.
* `executions_of_ok`: a flush that succeeds executes the statements of what it carries out.
* `Execution.Sound.creates_end`: the save of a new relationship creates its new ends.
* `Course.idOf?_of_not_joins`, `Course.isSome_idOf?_of_joins`: the id of a deleted entity.
* `Mapper.send_deletes`: a delete lasts unless a relationship of the entity is saved behind it.
* `Mapper.send_undoes_delete`: one that does not.
-/

namespace GraphMapping

variable {σ : Type}

/-! ### Pending work between actions -/

namespace Mapper

variable {mapper : Mapper σ}

/-- The pending work accounts for some requests. -/
def Accounted (mapper : Mapper σ) : Prop := ∃ log, mapper.work.Accounted log mapper.store

theorem accounted_of_settled (h : mapper.Settled) : mapper.Accounted :=
  ⟨[], .empty mapper.store h.operations⟩

/-- Reading adds entities to the store and removes none. Pending work is about keys, and these go on
meaning what they meant. -/
theorem Accounted.of_reads {mapper' : Mapper σ} (h : mapper.Accounted)
    (hreads : mapper.Reads mapper') : mapper'.Accounted := by
  obtain ⟨log, hlog⟩ := h
  have hsize : mapper.store.size ≤ mapper'.store.size :=
    hreads.store (mapper.store.size ≤ ·.size)
      (fun store e _ hle => hle.trans (by simp))
      (fun store key f _ hle => hle.trans (Nat.le_of_eq (Store.size_modify ..).symm))
      (Nat.le_refl _)
  exact ⟨log, hlog.of_size_le hsize (congrArg Work.operations hreads.work)⟩

/-- Every action keeps the pending work accounted for. -/
theorem accounted_act (h : mapper.Accounted) (action : Action σ) :
    (mapper.act action).Accounted := by
  cases action with
  | register schema => exact h
  | on typeName phase call hcall => exact h
  | onChanged typeName field call hcall => exact h
  | removeHook handle => exact h
  | create typeName kind new =>
    rw [act]
    cases hcreate : mapper.create typeName kind new with
    | error err => exact h
    | ok created =>
      obtain ⟨key, mapper'⟩ := created
      obtain ⟨e, -, rfl⟩ := create_ok hcreate
      obtain ⟨log, hlog⟩ := h
      have hgrown := Nat.le_of_lt (Nat.lt_of_lt_of_eq (Nat.lt_succ_self _)
        (Store.size_insert mapper.store e).symm)
      exact ⟨log, hlog.of_size_le hgrown rfl⟩
  | edit key revision =>
    obtain ⟨log, hlog⟩ := h
    exact ⟨log, hlog.of_size_le (Nat.le_of_eq (Store.size_modify ..).symm) rfl⟩
  | request r =>
    rw [act]
    cases hrequest : mapper.request r with
    | error err => exact h
    | ok mapper' =>
      obtain ⟨work, store, hr, rfl⟩ := request_ok hrequest
      obtain ⟨log, hlog⟩ := h
      exact ⟨_, hlog.request hr⟩
  | queries m =>
    rw [act, queries_untouched]
    exact h
  | send m => exact accounted_of_settled (settled_send mapper m)
  | getById m id kind => exact h.of_reads (.read mapper m (.getById id kind))
  | related m key traversal other =>
    exact h.of_reads (.read mapper m (.related key traversal other))
  | query m statement => exact h.of_reads (.read mapper m (.query statement))

theorem accounted_run (h : mapper.Accounted) (actions : List (Action σ)) :
    (mapper.run actions).Accounted := by
  induction actions generalizing mapper with
  | nil => exact h
  | cons action rest ih => exact ih (accounted_act h action)

end Mapper

/-! ### Relationships that are saved -/

/-- The operation saves a relationship that has the entity as an end. -/
def Operation.Joins (store : Store) (op : Operation) (key : EntityKey) : Prop :=
  op.kind = .save ∧ ∃ e, store.get? op.key = some e ∧ key ∈ e.endpointKeys

namespace Operation

variable {store : Store} {op : Operation} {key : EntityKey}

theorem Joins.targets (h : op.Joins store key) : op.Targets store key := ⟨h.1, .inr h.2⟩

/-- An operation on something else touches an entity only as an end. -/
theorem Touches.joins (h : op.Touches store key) (hne : op.key ≠ key) : op.Joins store key := by
  rcases h with rfl | ⟨hkind, rfl | hend⟩
  · exact absurd rfl hne
  · exact absurd rfl hne
  · exact ⟨hkind, hend⟩

theorem Joins.isNode_eq_false (h : op.Joins store key) :
    ∃ e, store.get? op.key = some e ∧ e.isNode = false := by
  obtain ⟨-, e, he, hend⟩ := h
  obtain ⟨role, hend⟩ := Entity.mem_endpointKeys.mp hend
  exact ⟨e, he, Entity.isNode_eq_false_of_endpoint? hend⟩

end Operation

/-- The ends of a relationship that can be written are nodes. -/
theorem Batch.Accepted.isNode_end {store : Store} {key other : EntityKey} {e : Entity}
    (h : Accepted store key) (he : store.get? key = some e) (hend : other ∈ e.endpointKeys) :
    ∃ node, store.get? other = some node ∧ node.isNode = true := by
  obtain ⟨role, hend⟩ := Entity.mem_endpointKeys.mp hend
  obtain ⟨e', he', hwritten⟩ := h
  obtain rfl := Option.some.inj (he.symm.trans he')
  rcases hwritten with hnode | ⟨start, finish, hstart, hfinish, hstartNode, hfinishNode⟩
  · exact nomatch (Entity.endpoint?_of_isNode hnode role).symm.trans hend
  · cases role with
    | start => exact hstartNode other (Option.some.inj (hstart.symm.trans hend))
    | finish => exact hfinishNode other (Option.some.inj (hfinish.symm.trans hend))

/-- The save of a relationship that has no id creates the ends that have none. The pattern of a new
relationship is created as a whole, and such an end is spelled out in it. -/
theorem Execution.Sound.creates_end {m : Moment} {x : Execution} (h : x.Sound m) {key : EntityKey}
    (hjoins : x.op.Joins x.store key) (hnew : x.store.idOf? x.op.key = none)
    (hend : x.store.idOf? key = none) : x.Creates m key := by
  have hchecked := accepted_of_composeOperation h.outcome hjoins.1
  obtain ⟨parts, hwrites, hstore, -, -⟩ := h.exists_writes hjoins.1
  have hmentioned : Endpoint.entity key ∈ Batch.mentioned x.store x.op.key :=
    Batch.mem_mentioned.mpr (.inr hjoins.2)
  obtain ⟨e, he, hmem⟩ := hjoins.2
  obtain ⟨node, hnode, hisNode⟩ := Batch.Accepted.isNode_end
    (Batch.accepted_of_check hchecked _ (List.mem_singleton_self _)) he hmem
  have hnodeNew : node.id = none := by rwa [Store.idOf?, hnode] at hend
  have hclosure : key ∈ Batch.closure x.store [x.op.key] := by
    rw [Batch.closure, List.mem_eraseDups, List.mem_filterMap]
    exact ⟨.entity key, by simpa using hmentioned, rfl⟩
  obtain ⟨p, -, -, hname⟩ := hwrites.follows.exists_part hclosure
  obtain ⟨first, b, hfirst, hb, hspelled⟩ :=
    hwrites.spells_new hclosure hnode hisNode hnodeNew hname
  obtain rfl := List.mem_singleton.mp (List.mem_of_find?_eq_some hfirst)
  have hid : b.id.isNone = true := by
    rw [Store.idOf?, hb, Option.bind_some] at hnew
    rw [hnew]
    rfl
  rw [if_pos hid] at hspelled
  obtain ⟨⟨fields, ⟨rest, hmentions, -⟩, -⟩, -⟩ := hspelled
  refine ⟨hjoins.targets, hend, p.name, hstore ▸ hname, ?_⟩
  have hfirst : (⟨p.name, node.labels, fields⟩ : NodePattern) ∈
      mentionsOf p.name (x.draft m).clauses.created := by
    rw [hmentions]
    exact List.mem_cons_self ..
  obtain ⟨⟨pattern, hpattern, hn⟩, -⟩ := mem_mentionsOf.mp hfirst
  refine ⟨pattern, ?_, Pattern.name_mem_names hn⟩
  rw [created, hjoins.1]
  exact hpattern

/-! ### Along a flush -/

/-- The execution of what was carried out, if there was a statement. -/
def Carried.execution? (c : Carried) : Option Execution :=
  c.statement.map (Execution.mk c.op c.store c.names)

/-- A flush that succeeds executes the statements of what it carries out. There are fewer statements
than operations if an entity without an id is deleted, since nothing has to be said about it. -/
theorem executions_of_ok {hooks : Hooks σ} {m : Moment} (hhooks : hooks.size = 0)
    {ops : List Operation} {response response' : Response} {st st' : FlushState σ}
    (h : runOperations hooks m ops response st = (.ok response', st')) :
    executions hooks m ops st = (carried hooks m ops st).filterMap Carried.execution? := by
  induction ops generalizing response st with
  | nil => rfl
  | cons op rest ih =>
    rw [runOperations] at h
    rw [executions, carried]
    rcases hop : runOperation hooks m op st with ⟨_ | ⟨statement, result⟩, st₁⟩
    · simp [hop] at h
    · simp only [hop] at h
      have hfirst : execution? hooks m op st =
          statement.map (Execution.mk op st.store st.names) := by
        have hstatement : (execution? hooks m op st).map (·.statement) = statement :=
          execution?_of_ok hop
        cases hx : execution? hooks m op st with
        | none =>
          rw [hx] at hstatement
          rw [← hstatement]
          rfl
        | some x =>
          obtain ⟨rfl, hstore, hnames, -⟩ := execution?_of_size hhooks hx
          rw [hx] at hstatement
          rw [← hstatement, ← hstore, ← hnames]
          rfl
      simp only [ih h, hfirst, List.filterMap_cons, Carried.execution?]
      cases statement <;> rfl

/-- The carried out operations, divided where the pending ones are. -/
theorem exists_carried {ops before after : List Operation} {op : Operation} {cs : List Carried}
    (hops : cs.map (·.op) = ops) (heq : ops = before ++ op :: after) :
    ∃ front c back, cs = front ++ c :: back ∧ front.map (·.op) = before ∧ c.op = op ∧
      back.map (·.op) = after := by
  rw [heq] at hops
  obtain ⟨front, rest, rfl, hfront, hrest⟩ := List.map_eq_append_iff.mp hops
  obtain ⟨c, back, rfl, hc, hback⟩ := List.map_eq_cons_iff.mp hrest
  exact ⟨front, c, back, rfl, hfront, hc, hback⟩

/-- Operations of which no two are on one entity are apart from each of them. -/
theorem key_ne_of_nodup {ops before after : List Operation} {op : Operation}
    (h : (ops.map (·.key)).Nodup) (heq : ops = before ++ op :: after) :
    (∀ op' ∈ before, op'.key ≠ op.key) ∧ ∀ op' ∈ after, op'.key ≠ op.key := by
  rw [heq, List.map_append, List.map_cons] at h
  obtain ⟨-, hrest, happart⟩ := List.nodup_append.mp h
  refine ⟨fun op' hop' => happart _ (List.mem_map_of_mem hop') _ (List.mem_cons_self ..),
    fun op' hop' hkey => (List.nodup_cons.mp hrest).1 ?_⟩
  exact hkey ▸ List.mem_map_of_mem hop'

namespace Course

variable {m : Moment} {store store' : Store} {before after : List Carried} {c : Carried}
  {key : EntityKey}

/-- What is carried out behind others begins with what they lead to. -/
theorem split (h : Course m store (before ++ c :: after) store') :
    Course m store before c.store ∧ (c.composed m).outcome = .ok c.statement := by
  obtain ⟨store₁, hbefore, hrest⟩ := append_iff.mp h
  cases hrest with
  | step houtcome hsettles hafter => exact ⟨hbefore, houtcome⟩

theorem joins_iff (h : Course m store before store') {op : Operation} :
    op.Joins store' key ↔ op.Joins store key := by
  have hread : ∀ {a b : Store},
      (∀ key, (a.get? key).map Entity.shape = (b.get? key).map Entity.shape) →
        op.Joins a key → op.Joins b key := by
    rintro a b hab ⟨hkind, e, he, hend⟩
    have hshape := hab op.key
    rw [he] at hshape
    obtain ⟨e', he', heq⟩ := Option.map_eq_some_iff.mp hshape.symm
    exact ⟨hkind, e', he', Entity.endpointKeys_congr heq ▸ hend⟩
  exact ⟨hread h.shape, hread fun key => (h.shape key).symm⟩

/-- What carried out saves of relationships have as ends are nodes. -/
theorem isNode_end (h : Course m store before store') (hc : c ∈ before)
    (hjoins : c.op.Joins store key) : ∃ node, store.get? key = some node ∧ node.isNode = true := by
  obtain ⟨front, back, rfl⟩ := List.append_of_mem hc
  obtain ⟨hfront, houtcome⟩ := h.split
  obtain ⟨hkind, e, he, hend⟩ := hfront.joins_iff.mpr hjoins
  obtain ⟨node, hnode, hisNode⟩ := Batch.Accepted.isNode_end (Batch.accepted_of_check
    (accepted_of_composeOperation houtcome hkind) _ (List.mem_singleton_self _)) he hend
  have hshape := hfront.shape key
  rw [hnode] at hshape
  obtain ⟨node', hnode', heq⟩ := Option.map_eq_some_iff.mp hshape.symm
  refine ⟨node', hnode', ?_⟩
  rw [Entity.isNode] at hisNode ⊢
  rwa [heq]

/-- The save of a relationship is executed. -/
theorem exists_execution (h : Course m store (before ++ c :: after) store')
    (hjoins : c.op.Joins store key) : ∃ s, c.execution? = some ⟨c.op, c.store, c.names, s⟩ := by
  obtain ⟨hbefore, houtcome⟩ := h.split
  obtain ⟨s, -, hstatement, -⟩ :=
    exists_returned_of_targets houtcome (hbefore.targets_iff.mpr hjoins.targets)
  refine ⟨s, ?_⟩
  rw [Carried.execution?, hstatement]
  rfl

/-- The relationship of a save is an end of nothing, so that only operations on it change its id. -/
theorem idOf?_relationship (h : Course m store before store') {op : Operation}
    (hjoins : op.Joins store key) (hothers : ∀ c ∈ before, c.op.key ≠ op.key) :
    store'.idOf? op.key = store.idOf? op.key := by
  refine h.idOf?_untouched fun c hc htouches => ?_
  obtain ⟨node, hnode, hisNode⟩ := h.isNode_end hc (htouches.joins (hothers c hc))
  obtain ⟨e, he, hrel⟩ := hjoins.isNode_eq_false
  obtain rfl := Option.some.inj (he.symm.trans hnode)
  rw [hrel] at hisNode
  cases hisNode

section Deleted

variable {back : List Carried} {d : Carried} (h : Course m store (before ++ d :: back) store')
  (hothers : ∀ c ∈ back, c.op.key ≠ key)

include h hothers

/-- A deleted entity has no id, if no relationship that it is an end of is saved behind the delete.
The save of such a relationship would store the entity again, as a new one. -/
theorem idOf?_of_not_joins (hdeletes : d.op.Deletes key)
    (hnot : ∀ c ∈ back, ¬ c.op.Joins store key) : store'.idOf? key = none :=
  h.idOf?_deleted hdeletes fun c hc htouches => hnot c hc (htouches.joins (hothers c hc))

/-- The deleted entity has an id again, if the save of such a relationship is answered. -/
theorem isSome_idOf?_of_joins (hc : c ∈ back) (hanswered : c.Answered)
    (hjoins : c.op.Joins store key) : (store'.idOf? key).isSome := by
  obtain ⟨between, rest, rfl⟩ := List.append_of_mem hc
  rw [← List.cons_append, ← List.append_assoc] at h
  obtain ⟨hbefore, houtcome⟩ := h.split
  have hbinds := hanswered.binds houtcome (hbefore.targets_iff.mpr hjoins.targets)
  refine h.isSome_idOf? hjoins.targets hbinds fun c' hc' hdeletes => ?_
  exact hothers c' (by simp [hc']) hdeletes.1

end Deleted

end Course

namespace Mapper

/-- A delete lasts, unless a relationship that has its entity as an end is saved behind it. -/
structure DeletesLast (mapper : Mapper σ) (m : Moment) : Prop where
  /-- No two operations are on one entity. -/
  distinct : (mapper.work.operations.map (·.key)).Nodup
  /-- A deleted entity has no id afterwards, exactly if no relationship that it is an end of is
  saved behind the delete. -/
  gone : ∀ before op after, mapper.work.operations = before ++ op :: after →
    ∀ key, op.Deletes key → ((mapper.send m).2.store.idOf? key = none ↔
      ∀ op' ∈ after, ¬ op'.Joins mapper.store key)
  /-- Then nothing that is executed behind the delete creates it. -/
  final : ∀ before op after, mapper.work.operations = before ++ op :: after →
    ∀ key, op.Deletes key → (∀ op' ∈ after, ¬ op'.Joins mapper.store key) →
      ∀ x ∈ mapper.executions m, x.op ∈ after → ¬ x.Creates m key
  /-- Otherwise the first of these saves does, if its relationship is new. -/
  undone : ∀ before op between op' after,
    mapper.work.operations = before ++ op :: (between ++ op' :: after) →
    ∀ key, op.Deletes key → (∀ op'' ∈ between, ¬ op''.Joins mapper.store key) →
      op'.Joins mapper.store key → mapper.store.idOf? op'.key = none →
        ∃ x ∈ mapper.executions m, x.op = op' ∧ x.Creates m key

variable {mapper : Mapper σ} {m : Moment} {response : Response}

/-- Pending work that is accounted for deletes as it says. -/
theorem deletesLast_of_accounted (horderly : mapper.Orderly) (haccounted : mapper.Accounted)
    (hhooks : mapper.hooks.size = 0) (hok : (mapper.send m).1 = .ok response)
    (hanswered : ∀ c ∈ mapper.carried m, c.Answered) : mapper.DeletesLast m := by
  obtain ⟨log, hlog⟩ := haccounted
  have hdistinct := hlog.distinct
  obtain ⟨st, hrun⟩ := exists_runOperations hok
  obtain ⟨hops, hcourse⟩ : (mapper.carried m).map (·.op) = mapper.work.operations ∧
      Course m mapper.store (mapper.carried m) st.store := course_of_ok hhooks hrun
  have hexecutions : mapper.executions m = (mapper.carried m).filterMap Carried.execution? :=
    executions_of_ok hhooks hrun
  constructor
  case distinct => exact hdistinct
  case gone =>
    intro before op after heq key hdeletes
    rw [idOf?_send hrun]
    obtain ⟨front, d, back, hcs, rfl, rfl, rfl⟩ := exists_carried hops heq
    obtain ⟨-, hbehind⟩ := key_ne_of_nodup hdistinct heq
    have hothers : ∀ c ∈ back, c.op.key ≠ key := fun c hc =>
      hdeletes.1 ▸ hbehind c.op (List.mem_map_of_mem hc)
    rw [hcs] at hcourse
    constructor
    · rintro hnone op' hop' hjoins
      obtain ⟨c, hc, rfl⟩ := List.mem_map.mp hop'
      have hanswer : c.Answered := hanswered c (by simp [hcs, hc])
      have hsome := hcourse.isSome_idOf?_of_joins hothers hc hanswer hjoins
      rw [hnone] at hsome
      cases hsome
    · exact fun hnot => hcourse.idOf?_of_not_joins hothers hdeletes fun c hc =>
        hnot c.op (List.mem_map_of_mem hc)
  case final =>
    intro before op after heq key hdeletes hnot x hx hbehind hcreates
    rw [hexecutions] at hx
    obtain ⟨c, hc, hexecution⟩ := List.mem_filterMap.mp hx
    obtain ⟨s, -, rfl⟩ := Option.map_eq_some_iff.mp hexecution
    obtain ⟨front, back, hcs⟩ := List.append_of_mem hc
    rw [hcs] at hcourse
    have htargets := hcourse.split.1.targets_iff.mp hcreates.targets
    have hne := (key_ne_of_nodup hdistinct heq).2 c.op hbehind
    exact hnot c.op hbehind (htargets.touches.joins (hdeletes.1 ▸ hne))
  case undone =>
    intro before op between op' after heq key hdeletes hnot hjoins hnew
    have heq' : mapper.work.operations = (before ++ op :: between) ++ op' :: after := by simp [heq]
    obtain ⟨front, c, back, hcs, hfront, rfl, rfl⟩ := exists_carried hops heq'
    obtain ⟨former, d, latter, rfl, rfl, rfl, rfl⟩ := exists_carried hfront rfl
    rw [hcs] at hcourse
    obtain ⟨s, hexecution⟩ := hcourse.exists_execution hjoins
    have hcourse' := hcourse.split.1
    have hx : ⟨c.op, c.store, c.names, s⟩ ∈ mapper.executions m := by
      rw [hexecutions]
      exact List.mem_filterMap.mpr ⟨c, by simp [hcs], hexecution⟩
    have hnamed : mapper.beforeFlush.store.NamedBy mapper.beforeFlush.names :=
      horderly.numbered.namedBy
    have hchain : Execution.Chain m (mapper.executions m) :=
      (chain_executions horderly.restrained hnamed mapper.work.operations).1
    have hothers : ∀ c' ∈ former ++ d :: latter, c'.op.key ≠ c.op.key := fun c' hc' =>
      (key_ne_of_nodup hdistinct heq').1 c'.op (hfront ▸ List.mem_map_of_mem hc')
    have hbetween : ∀ c' ∈ latter, c'.op.key ≠ key := fun c' hc' =>
      hdeletes.1 ▸ (key_ne_of_nodup hdistinct heq).2 c'.op
        (List.mem_append_left _ (List.mem_map_of_mem hc'))
    refine ⟨_, hx, rfl, (hchain.sound _ hx).creates_end (hcourse'.joins_iff.mpr hjoins) ?_ ?_⟩
    · exact (hcourse'.idOf?_relationship hjoins hothers).trans hnew
    · exact hcourse'.idOf?_of_not_joins hbetween hdeletes fun c' hc' =>
        hnot c'.op (List.mem_map_of_mem hc')

/-- **A delete lasts unless a relationship of the entity is saved behind it.** Whatever is done with
a mapper without hooks, if it is then sent with success and every statement is answered with a node
or relationship for each variable that it returns, an entity whose delete was pending has no id
afterwards, and no statement behind the delete creates it. This is so whatever saves of
relationships that have it as an end are pending in front of the delete; but if one is pending
behind it, then the entity has an id again, and the first of them creates it if its relationship is
new. -/
theorem send_deletes (settings : MapperSettings) (connection : Connection) (app : σ)
    (actions : List (Action σ)) (m : Moment) {response : Response} :
    let mapper := (new settings connection app).run actions
    mapper.hooks.size = 0 → (mapper.send m).1 = .ok response →
      (∀ c ∈ mapper.carried m, c.Answered) → mapper.DeletesLast m := by
  intro mapper hhooks hok hanswered
  have hnew := orderly_new settings connection app
  have haccounted := accounted_of_settled (settled_new settings connection app)
  exact deletesLast_of_accounted (orderly_run hnew actions) (accounted_run haccounted actions)
    hhooks hok hanswered

/-- Answers every statement with a node for each variable that it returns. -/
def answering : Connection :=
  ⟨List.replicate 2 fun s => .ok ⟨[.ofList (s.returns.map (·, .node ⟨8, [], .empty⟩))]⟩, []⟩

/-- A node with an id, and a new relationship from it to a bare id. -/
def attachment : List (Action Unit) :=
  [.create "Node" .node { id := some 5 },
    .create "Knows" .relationship { start := some (.entity ⟨0⟩), finish := some (.id 2) }]

/-- The relationship is saved, and then the node is deleted. -/
def parting : List (Action Unit) :=
  attachment ++ [.request (.save .epoch ⟨1⟩), .request (.delete ⟨0⟩ true)]

/-- Behind the save of its relationship the delete of the node lasts. -/
theorem send_deletes_parting :
    let mapper := (new {} answering ()).run parting
    mapper.hooks.size = 0 ∧ (∃ response, (mapper.send .epoch).1 = .ok response) ∧
      (∀ c ∈ mapper.carried .epoch, c.Answered) ∧ mapper.DeletesLast .epoch ∧
      (mapper.send .epoch).2.store.idOf? ⟨0⟩ = none ∧ (mapper.executed .epoch).length = 2 := by
  intro mapper
  have hanswered : ∀ c ∈ mapper.carried .epoch, c.Answered := by decide +kernel
  obtain ⟨response, hok⟩ : ∃ response, (mapper.send .epoch).1 = .ok response :=
    Except.isOk_iff.mp (by decide +kernel)
  exact ⟨rfl, ⟨response, hok⟩, hanswered,
    send_deletes {} answering () parting .epoch rfl hok hanswered, by decide +kernel,
    by decide +kernel⟩

/-- The node is deleted, and then the relationship is saved. -/
def regret : List (Action Unit) :=
  attachment ++ [.request (.delete ⟨0⟩ true), .request (.save .epoch ⟨1⟩)]

/-- **A delete that is undone.** The statement that creates the relationship creates the deleted
node with it, which has an id again. -/
theorem send_undoes_delete :
    let mapper := (new {} answering ()).run regret
    mapper.hooks.size = 0 ∧ (∃ response, (mapper.send .epoch).1 = .ok response) ∧
      (∀ c ∈ mapper.carried .epoch, c.Answered) ∧
      ∃ op op', mapper.work.operations = [op, op'] ∧ op.Deletes ⟨0⟩ ∧
        (mapper.send .epoch).2.store.idOf? ⟨0⟩ = some 8 ∧
        ∃ x ∈ mapper.executions .epoch, x.op = op' ∧ x.Creates .epoch ⟨0⟩ := by
  intro mapper
  have hanswered : ∀ c ∈ mapper.carried .epoch, c.Answered := by decide +kernel
  obtain ⟨response, hok⟩ : ∃ response, (mapper.send .epoch).1 = .ok response :=
    Except.isOk_iff.mp (by decide +kernel)
  have hnew := orderly_new {} answering ()
  have haccounted := accounted_of_settled (settled_new {} answering ())
  have hdeletes : mapper.DeletesLast .epoch := deletesLast_of_accounted (orderly_run hnew regret)
    (accounted_run haccounted regret) rfl hok hanswered
  have hpending : mapper.work.operations = [⟨⟨0⟩, .delete true, .scheduled, []⟩,
      ⟨⟨1⟩, .save, .scheduled, []⟩] := by decide +kernel
  have hjoins : Operation.Joins mapper.store ⟨⟨1⟩, .save, .scheduled, []⟩ ⟨0⟩ := by
    refine ⟨rfl, ?_⟩
    have hend : (mapper.store.get? ⟨1⟩).any (⟨0⟩ ∈ ·.endpointKeys) = true := by decide +kernel
    obtain ⟨e, he, hmem⟩ := (Option.any_eq_true _ _).mp hend
    exact ⟨e, he, of_decide_eq_true hmem⟩
  exact ⟨rfl, ⟨response, hok⟩, hanswered, _, _, hpending, ⟨rfl, nofun⟩, by decide +kernel,
    hdeletes.undone [] _ [] _ [] hpending ⟨0⟩ ⟨rfl, nofun⟩ nofun hjoins (by decide +kernel)⟩

end Mapper

end GraphMapping
