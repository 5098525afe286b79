import GraphMapping.Proofs.Mapper.Delivery
import GraphMapping.Proofs.Mapper.Readings
import GraphMapping.Proofs.Work.Executions

/-!
# Variables over the life of a mapper

Between two actions on a mapper a stored entity has no variable or one that the pending work handed
out: `n` or `r`, by its kind, and a number below the counter of that kind. No two entities share a
variable. Requests hand out variables, sending takes all of them back, and everything else leaves
them as they are. Previews and traversals compose statements on the way, but give back what they
handed out.

This is what a flush begins with. In all of its statements together, a variable stands for one
stored entity or one bare id, and no parameter is bound twice. So the rows of different statements
can be put together: a variable in them is always the same entity.

## Main definitions

* `Store.Numbered`: the variables of a store are numbered by kind, and distinct.
* `Mapper.Action`, `Mapper.run`: what is done with a mapper, hooks included.
* `Mapper.Reads`: what leads from one mapper to another by loading.
* `Mapper.executed`, `Mapper.executions`: the statements of a flush.
* `Mapper.NamesApart`: names do not collide in a flush.

## Main results

* `Library.loadAll_induction`: what storing and changing entities keeps, loading keeps.
* `Mapper.orderly_run`: variables stay numbered and distinct, whatever is done.
* `Mapper.namesApart_run`: so names never collide in a flush.
-/

namespace GraphMapping

variable {σ : Type}

/-! ### Numbered variables -/

namespace Store

variable {store : Store} {names names' : Names} {key : EntityKey} {e : Entity} {name : String}

/-- Every variable is that of the kind of its entity with a number that has been handed out, and no
two entities share one. -/
structure Numbered (store : Store) (names : Names) : Prop where
  number : ∀ key e name, store.get? key = some e → e.queryVariable = some name →
    ∃ k, k < names.count e.kind ∧ name = variableName e.kind k
  distinct : ∀ key key' name,
    store.nameOf? key = some name → store.nameOf? key' = some name → key = key'

namespace Numbered

theorem namedBy (h : store.Numbered names) : store.NamedBy names where
  issued key name hname := by
    obtain ⟨e, he, hvariable⟩ := Option.bind_eq_some_iff.mp hname
    obtain ⟨k, hlt, rfl⟩ := h.number key e name he hvariable
    exact ⟨e.kind, k, hlt, rfl⟩
  distinct := h.distinct

theorem of_nameOf?_eq_none (h : ∀ key, store.nameOf? key = none) (names : Names) :
    store.Numbered names where
  number key e name he hname := by
    have hnone := h key
    rw [nameOf?, he] at hnone
    exact absurd (hname.symm.trans hnone) (Option.some_ne_none name)
  distinct := (namedBy_of_nameOf?_eq_none h names).distinct

theorem define (h : store.Numbered names) (he : store.get? key = some e)
    (hdefine : names.define e = (name, e.bindVariable name, names')) :
    (store.modify key fun _ => e.bindVariable name).Numbered names' where
  distinct := (h.namedBy.define he hdefine).distinct
  number other e' name' he' hname' := by
    have hgrown : ∀ kind, names.count kind ≤ names'.count kind := by
      intro kind
      rcases Names.define_cases hdefine with ⟨-, rfl⟩ | ⟨-, -, rfl⟩
      · exact Nat.le_refl _
      · rw [Names.count_allocate]
        exact Nat.le_add_right ..
    by_cases hother : other = key
    · subst hother
      obtain rfl : e.bindVariable name = e' := by
        rw [get?_modify_self, he] at he'
        exact Option.some.inj he'
      obtain rfl : name = name' := Option.some.inj hname'
      rcases Names.define_cases hdefine with ⟨hbound, rfl⟩ | ⟨-, rfl, rfl⟩
      · exact h.number other e name he hbound
      · have hkind : (e.bindVariable (names.allocate e.kind).1).kind = e.kind := rfl
        refine ⟨names.count e.kind, ?_, names.fst_allocate e.kind⟩
        rw [hkind, Names.count_allocate, if_pos rfl]
        exact Nat.lt_succ_self _
    · rw [get?_modify_of_ne store hother] at he'
      obtain ⟨k, hlt, rfl⟩ := h.number other e' name' he' hname'
      exact ⟨k, hlt.trans_le (hgrown _), rfl⟩

theorem insert (h : store.Numbered names) (hname : e.queryVariable = none) :
    (store.insert e).2.Numbered names where
  distinct := (h.namedBy.of_nameOf? (nameOf?_insert hname)).distinct
  number key e' name he' hname' := by
    have hold : store.get? key = some e' ∨ e' = e := by
      rw [get?, Store.insert, List.getElem?_append] at he'
      split at he'
      · exact .inl he'
      · exact .inr (List.mem_singleton.mp (List.mem_of_getElem? he'))
    rcases hold with he' | rfl
    · exact h.number key e' name he' hname'
    · exact absurd (hname'.symm.trans hname) (Option.some_ne_none name)

theorem modify (h : store.Numbered names) (key : EntityKey) {f : Entity → Entity}
    (hf : ∀ e, Entity.Keeps e (f e)) : (store.modify key f).Numbered names := by
  have hread : ∀ other e', (store.modify key f).get? other = some e' →
      ∃ e, store.get? other = some e ∧ e.Keeps e' := by
    intro other e' he'
    by_cases hother : other = key
    · rw [hother, get?_modify_self] at he'
      obtain ⟨e, he, rfl⟩ := Option.map_eq_some_iff.mp he'
      exact ⟨e, hother ▸ he, hf e⟩
    · rw [get?_modify_of_ne store hother] at he'
      exact ⟨e', he', .refl e'⟩
  have hnameOf : ∀ other name, (store.modify key f).nameOf? other = some name →
      store.nameOf? other = some name := by
    intro other name hname
    obtain ⟨e', he', hvariable⟩ := Option.bind_eq_some_iff.mp hname
    obtain ⟨e, he, hkeeps⟩ := hread other e' he'
    exact (nameOf?_of_get? he).trans (hkeeps.queryVariable.symm.trans hvariable)
  constructor
  case number =>
    intro other e' name he' hname
    obtain ⟨e, he, hkeeps⟩ := hread other e' he'
    rw [hkeeps.kind]
    exact h.number other e name he (hkeeps.queryVariable.symm.trans hname)
  case distinct =>
    intro a b name ha hb
    exact h.distinct a b name (hnameOf a name ha) (hnameOf b name hb)

end Numbered

end Store

/-! ### Loading -/

namespace Library

section Induction

variable {P : Store → Prop}
  (hinsert : ∀ store e, e.queryVariable = none → P store → P (store.insert e).2)
  (hmodify : ∀ store key f, (∀ e, Entity.Keeps e (f e)) → P store → P (store.modify key f))

include hinsert hmodify

theorem load_induction (lib : Library) (m : Moment) (value : GraphValue) {key : EntityKey}
    {lib' : Library} (hload : lib.load m value = .ok (key, lib')) (h : P lib.store) :
    P lib'.store := by
  obtain ⟨kind, id, -, ⟨-, properties, rfl⟩ | ⟨-, -, e, -, hname, -, -, rfl⟩⟩ := load_cases hload
  · rcases lib.refresh_cases m key properties with hsame | ⟨-, -, -, hchanged⟩
    · rw [hsame]
      exact h
    · rw [hchanged]
      exact hmodify _ _ _ (fun e => ⟨rfl, rfl, rfl⟩) h
  · exact hinsert _ _ hname h

/-- What storing new entities and changing stored ones keeps, loading keeps, also when it fails. All
readings load what they have fetched, so what they do to the store is known from these two changes.
-/
theorem loadAll_induction (lib : Library) (m : Moment) (keys : List EntityKey)
    (values : List GraphValue) (h : P lib.store) : P (lib.loadAll m keys values).2.store := by
  induction values generalizing lib keys with
  | nil => exact h
  | cons value rest ih =>
    rw [loadAll]
    cases hload : lib.load m value with
    | error err => exact h
    | ok loaded => exact ih _ _ (load_induction hinsert hmodify lib m value hload h)

end Induction

end Library

/-! ### Actions -/

namespace Mapper

/-- What is done with a mapper. -/
inductive Action (σ : Type) where
  | register (schema : Schema)
  | on (typeName : String) (phase : Phase) (call : Hook σ) (h : call.Restrained)
  | onChanged (typeName field : String) (call : Handler σ) (h : call.Restrained)
  | removeHook (handle : HookHandle)
  | create (typeName : String) (kind : EntityKind) (new : NewEntity)
  | edit (key : EntityKey) (revision : Entity.Revision)
  | request (r : Request)
  | queries (m : Moment)
  | send (m : Moment)
  | getById (m : Moment) (id : Int64) (kind : EntityKind)
  | related (m : Moment) (key : EntityKey) (traversal : Traversal) (other : String)
  | query (m : Moment) (statement : Statement)

/-- The mapper after an action. Creating and requesting change nothing when they are refused. -/
def act (mapper : Mapper σ) : Action σ → Mapper σ
  | .register schema => mapper.register schema
  | .on typeName phase call _ => (mapper.on typeName phase call).2
  | .onChanged typeName field call _ => (mapper.onChanged typeName field call).2
  | .removeHook handle => (mapper.removeHook handle).2
  | .create typeName kind new =>
    ((mapper.create typeName kind new).map Prod.snd).toOption.getD mapper
  | .edit key revision => { mapper with store := mapper.store.modify key revision.change }
  | .request r => (mapper.request r).toOption.getD mapper
  | .queries m => (mapper.queries m).2
  | .send m => (mapper.send m).2
  | .getById m id kind => (mapper.getById m id kind).2
  | .related m key traversal other => (mapper.related m key traversal other).2
  | .query m statement => (mapper.query m statement).2

/-- The mapper after some actions. -/
def run (mapper : Mapper σ) (actions : List (Action σ)) : Mapper σ := actions.foldl act mapper

/-- The variables in the store are numbered by the pending work, and hooks leave them alone. -/
structure Orderly (mapper : Mapper σ) : Prop where
  numbered : mapper.store.Numbered mapper.work.names
  restrained : mapper.hooks.Restrained

variable {mapper : Mapper σ}

theorem orderly_new (settings : MapperSettings) (connection : Connection) (app : σ) :
    (new settings connection app).Orderly :=
  ⟨.of_nameOf?_eq_none (fun _ => rfl) _, .empty⟩

/-- Reading leads from one mapper to another: pending work and hooks stay, and what storing new
entities and changing stored ones keeps holds of the store. -/
structure Reads (mapper mapper' : Mapper σ) : Prop where
  work : mapper'.work = mapper.work
  hooks : mapper'.hooks = mapper.hooks
  store : ∀ P : Store → Prop,
    (∀ store e, e.queryVariable = none → P store → P (store.insert e).2) →
    (∀ store key f, (∀ e, Entity.Keeps e (f e)) → P store → P (store.modify key f)) →
    P mapper.store → P mapper'.store

theorem Reads.read (mapper : Mapper σ) (m : Moment) (reading : Reading) :
    mapper.Reads (mapper.read m reading) := by
  obtain ⟨connection, values, -, -, hread⟩ := mapper.fetches_read m reading
  rw [hread]
  exact ⟨rfl, rfl, fun P hinsert hmodify hP =>
    Library.loadAll_induction hinsert hmodify mapper.library m [] values hP⟩

theorem Orderly.of_reads {mapper' : Mapper σ} (h : mapper.Orderly) (hreads : mapper.Reads mapper') :
    mapper'.Orderly where
  restrained := hreads.hooks ▸ h.restrained
  numbered := by
    rw [hreads.work]
    exact hreads.store (·.Numbered mapper.work.names) (fun _ _ hname h => h.insert hname)
      (fun _ key _ hf h => h.modify key hf) h.numbered

theorem Orderly.request (h : mapper.Orderly) {r : Request} {mapper' : Mapper σ}
    (hok : mapper.request r = .ok mapper') : mapper'.Orderly := by
  obtain ⟨work, store, hr, rfl⟩ := request_ok hok
  refine ⟨?_, h.restrained⟩
  exact Work.request_induction (P := fun names store => store.Numbered names)
    (fun _ _ _ _ _ _ he hdefine h => h.define he hdefine) hr h.numbered

/-- Every action keeps the variables numbered and distinct. It is the one thing that the theorems on
statements ask of a store, and they are about every store that a mapper can come to have. -/
theorem orderly_act (h : mapper.Orderly) (action : Action σ) : (mapper.act action).Orderly := by
  cases action with
  | register schema => exact ⟨h.numbered, h.restrained⟩
  | on typeName phase call hcall => exact ⟨h.numbered, h.restrained.register typeName phase hcall⟩
  | onChanged typeName field call hcall =>
    exact ⟨h.numbered, h.restrained.onChanged typeName field hcall⟩
  | removeHook handle => exact ⟨h.numbered, h.restrained.unregister handle⟩
  | create typeName kind new =>
    rw [act]
    cases hcreate : mapper.create typeName kind new with
    | error err => exact h
    | ok created =>
      obtain ⟨key, mapper'⟩ := created
      obtain ⟨e, hnew, rfl⟩ := create_ok hcreate
      exact ⟨h.numbered.insert (Schema.queryVariable_instantiate hnew), h.restrained⟩
  | edit key revision => exact ⟨h.numbered.modify key revision.keeps, h.restrained⟩
  | request r =>
    rw [act]
    cases hrequest : mapper.request r with
    | error err => exact h
    | ok mapper' => exact h.request hrequest
  | queries m =>
    rw [act, queries_untouched]
    exact h
  | send m =>
    exact ⟨.of_nameOf?_eq_none (settled_send mapper m).nameOf? _, h.restrained⟩
  | getById m id kind => exact h.of_reads (.read mapper m (.getById id kind))
  | related m key traversal other =>
    exact h.of_reads (.read mapper m (.related key traversal other))
  | query m statement => exact h.of_reads (.read mapper m (.query statement))

theorem orderly_run (h : mapper.Orderly) (actions : List (Action σ)) :
    (mapper.run actions).Orderly := by
  induction actions generalizing mapper with
  | nil => exact h
  | cons action rest ih => exact ih (orderly_act h action)

/-! ### Names in a flush -/

/-- The statements that a flush executes, in order, also when it fails. -/
def executed (mapper : Mapper σ) (m : Moment) : List Statement :=
  (mapper.sendJournaled m).1.2.filterMap Event.statement?

/-- The statements that a flush executes, with what each is composed from. -/
def executions (mapper : Mapper σ) (m : Moment) : List Execution :=
  GraphMapping.executions mapper.hooks m mapper.work.operations mapper.beforeFlush

/-- Names do not collide in a flush. -/
structure NamesApart (mapper : Mapper σ) (m : Moment) : Prop where
  /-- The executions are the statements of the journal. -/
  executed : mapper.executed m = (mapper.executions m).map (·.statement)
  /-- The response, if there is one, lists the same statements. -/
  response : ∀ response, (mapper.send m).1 = .ok response →
    response.statements = mapper.executed m
  composed : ∀ x ∈ mapper.executions m, (x.composed m).outcome = .ok (some x.statement)
  /-- Every variable that a statement mentions stands for a stored entity or a bare id. -/
  denotes : ∀ x ∈ mapper.executions m, ∀ name ∈ x.mentioned m, ∃ a, x.Denotes m name a
  /-- In all statements of the flush it stands for the same one. -/
  agree : ∀ x ∈ mapper.executions m, ∀ y ∈ mapper.executions m, x.Agree m y
  /-- A variable that rows are returned under stands for a stored entity. -/
  returned : ∀ x ∈ mapper.executions m, ∀ name ∈ x.statement.returns,
    name ∈ x.mentioned m ∧ ∃ key, x.Denotes m name (.entity key)
  /-- No parameter is bound twice. -/
  params : ((mapper.executed m).flatMap (·.params.names)).Nodup

/-- Sending executes the statements of its executions. -/
theorem executed_eq (h : mapper.hooks.Restrained) (m : Moment) :
    mapper.executed m = (mapper.executions m).map (·.statement) :=
  executed_runOperations h mapper.work.operations {} mapper.beforeFlush

theorem Orderly.namesApart (h : mapper.Orderly) (m : Moment) : mapper.NamesApart m := by
  have hnamed : mapper.beforeFlush.store.NamedBy mapper.beforeFlush.names := h.numbered.namedBy
  obtain ⟨hchain, -⟩ := chain_executions (m := m) h.restrained hnamed mapper.work.operations
  constructor
  case executed => exact executed_eq h.restrained m
  case response =>
    intro response hok
    obtain ⟨st, hrun⟩ := exists_runOperations hok
    rw [executed_eq h.restrained]
    exact statements_runOperations hrun
  case composed => exact fun x hx => (hchain.sound x hx).outcome
  case denotes => exact fun x hx name hname => (hchain.sound x hx).exists_denotes hname
  case agree => exact fun x hx y hy => hchain.agree hx hy
  case returned => exact fun x hx name hname => (hchain.sound x hx).denotes_of_mem_returns hname
  case params =>
    rw [executed_eq h.restrained]
    exact hchain.nodup_params

/-- **Names never collide in a flush.** Whatever is done with a mapper, the variables in its store
are numbered by kind below the counters of the pending work, and no two entities share one. If it is
sent then, every variable stands for one stored entity or one bare id in all statements of the
flush together, and no parameter is bound twice. -/
theorem namesApart_run (settings : MapperSettings) (connection : Connection) (app : σ)
    (actions : List (Action σ)) :
    let mapper := (new settings connection app).run actions
    mapper.store.Numbered mapper.work.names ∧ ∀ m, mapper.NamesApart m :=
  have horderly := orderly_run (orderly_new settings connection app) actions
  ⟨horderly.numbered, fun m => horderly.namesApart m⟩

/-- Two nodes and a relationship from the first one to a bare id; the second node and the
relationship are saved, the statements are looked at, and a property is assigned afterwards. -/
def friendship : List (Action Unit) :=
  [.create "Node" .node {}, .create "Node" .node {},
    .create "Knows" .relationship { start := some (.entity ⟨0⟩), finish := some (.id 2) },
    .request (.save .epoch ⟨1⟩), .request (.save .epoch ⟨2⟩), .queries .epoch,
    .edit ⟨0⟩ (.ofCommands [.assign "age" (.integer 3)])]

theorem namesApart_friendship :
    let mapper := (new {} {} ()).run friendship
    (mapper.executed .epoch).map (fun s => (s.params.names, s.returns)) =
        [([], ["n0"]), (["n1_age_0", "n2_id_1"], ["n1", "r0"])] ∧
      mapper.store.Numbered mapper.work.names ∧ ∀ m, mapper.NamesApart m :=
  ⟨rfl, namesApart_run {} {} () friendship⟩

end Mapper

end GraphMapping
