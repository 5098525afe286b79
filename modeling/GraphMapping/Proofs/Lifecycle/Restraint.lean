import GraphMapping.Lifecycle.Hooks

/-!
# What applications leave alone

Applications change stored entities between flushes, and their hooks change them during a flush.
None of the operations on entities that are open to them touches the variable, the type name or the
kind: these are given when an entity is made and when names are handed out. So a change is taken to
be anything that keeps these three, whatever else it does. Putting a copy of another entity in its
place is no change of an entity.

## Main definitions

* `Entity.Keeps`: the change left variable, type name and kind alone.
* `Entity.Edits`: it left id and ends alone as well.
* `Entity.Command`: what an application can do to an entity.
* `Entity.Revision`: a change that leaves them alone for every entity.
* `Hooks.Within`: registrations that change entities within a relation.
* `Hook.Restrained`, `Hooks.Restrained`: registrations that leave those three alone.

## Main results

* `Entity.Command.keeps`: the commands leave them alone.
* `Entity.Command.IsEdit.edits`: only those that are about ids or ends change either.
* `Hooks.Within.run`, `Hooks.Within.dispatch`: what registrations stay within, calling them in order
  stays within.
-/

namespace GraphMapping

/-- The second entity has the variable, the type name and the kind of the first one. -/
structure Entity.Keeps (e e' : Entity) : Prop where
  queryVariable : e'.queryVariable = e.queryVariable
  typeName : e'.typeName = e.typeName
  isNode : e'.isNode = e.isNode

namespace Entity.Keeps

variable {e e' e'' : Entity}

theorem refl (e : Entity) : e.Keeps e := ⟨rfl, rfl, rfl⟩

theorem trans (h : e.Keeps e') (h' : e'.Keeps e'') : e.Keeps e'' :=
  ⟨h'.queryVariable.trans h.queryVariable, h'.typeName.trans h.typeName, h'.isNode.trans h.isNode⟩

theorem kind (h : e.Keeps e') : e'.kind = e.kind := by
  rw [Entity.kind, h.isNode, Entity.kind]

end Entity.Keeps

/-- The second entity is the first one with other data: its id and its ends are the same as well. -/
structure Entity.Edits (e e' : Entity) : Prop extends e.Keeps e' where
  id : e'.id = e.id
  shape : e'.shape = e.shape

namespace Entity.Edits

variable {e e' e'' : Entity}

theorem refl (e : Entity) : e.Edits e := ⟨.refl e, rfl, rfl⟩

theorem trans (h : e.Edits e') (h' : e'.Edits e'') : e.Edits e'' :=
  ⟨h.toKeeps.trans h'.toKeeps, h'.id.trans h.id, h'.shape.trans h.shape⟩

theorem of_map {ε : Type} (f : Bag → Entity) (hf : ∀ bag, e.Edits (f bag)) (x : Except ε Bag) :
    e.Edits ((x.map f).toOption.getD e) := by
  cases x with
  | error err => exact .refl e
  | ok bag => exact hf bag

end Entity.Edits

/-! ### Changes by the application -/

namespace Entity

/-- What an application can do to an entity. -/
inductive Command where
  | setId (id : Int64)
  | setEndpoint (role : EndpointRole) (other : Endpoint)
  | assign (name : String) (value : Value)
  | assignProducer (m : Moment) (name : String) (producer : Producer)
  | assignAll (pairs : List (String × Value))
  | remove (name : String)
  | load (pairs : List (String × Value))
  | commit (m : Moment)
  | resetProperties
  /-- Any other change of the properties. -/
  | changeProperties (change : Bag → Bag)

/-- The entity after a command. One that is refused changes nothing. -/
def Command.apply (e : Entity) : Command → Entity
  | setId id => e.setId id
  | setEndpoint role other => (e.setEndpoint role other).toOption.getD e
  | assign name value => (e.assign name value).toOption.getD e
  | assignProducer m name producer => (e.assignProducer m name producer).toOption.getD e
  | assignAll pairs => (e.assignAll pairs).toOption.getD e
  | remove name => e.remove name
  | load pairs => e.load pairs
  | commit m => e.commit m
  | resetProperties => e.resetProperties
  | changeProperties change => { e with properties := change e.properties }

/-- The command is neither about the id nor about an end. -/
def Command.IsEdit : Command → Prop
  | setId _ | setEndpoint .. => False
  | _ => True

/-- All other commands leave the id and the ends alone. -/
theorem Command.IsEdit.edits {command : Command} (h : command.IsEdit) (e : Entity) :
    e.Edits (command.apply e) := by
  have hsame : ∀ bag deleted, e.Edits { e with properties := bag, deleted } := fun _ _ =>
    ⟨⟨rfl, rfl, rfl⟩, rfl, rfl⟩
  cases command with
  | setId | setEndpoint => exact h.elim
  | assign name value =>
    exact .of_map (e.withAssigned name) (fun _ => hsame _ _) (e.properties.assign name value)
  | assignProducer m name producer =>
    exact .of_map (e.withAssigned name) (fun _ => hsame _ _)
      (e.properties.assignProducer m name producer)
  | assignAll pairs =>
    exact .of_map (fun properties => { e with properties }) (fun _ => hsame _ _)
      (e.properties.assignAll pairs)
  | remove name =>
    rw [apply, Entity.remove]
    split
    · exact hsame _ _
    · exact .refl e
  | load pairs => exact hsame _ _
  | commit m => exact hsame _ _
  | resetProperties => exact hsame _ _
  | changeProperties change => exact hsame _ _

/-- Variables, type names and kinds are out of the application's reach, and so are ids that are
there. -/
theorem Command.keeps_of_apply (command : Command) (e : Entity) :
    e.Keeps (command.apply e) ∧ (e.id.isSome → (command.apply e).id.isSome) := by
  by_cases hedit : command.IsEdit
  · have hedits := hedit.edits e
    exact ⟨hedits.toKeeps, fun hid => hedits.id ▸ hid⟩
  cases command with
  | setId id =>
    refine ⟨⟨rfl, rfl, rfl⟩, fun hid => ?_⟩
    obtain ⟨id', hid'⟩ := Option.isSome_iff_exists.mp hid
    rw [apply, Entity.setId, hid']
    rfl
  | setEndpoint role other =>
    rw [apply]
    cases hshape : e.shape with
    | node =>
      simp only [Entity.setEndpoint, hshape]
      exact ⟨.refl e, fun hid => hid⟩
    | relationship start finish =>
      have hrel : e.isNode = false := by simp [isNode, hshape]
      cases role <;> simp only [Entity.setEndpoint, hshape] <;>
        exact ⟨⟨rfl, rfl, hrel.symm⟩, fun hid => hid⟩
  | _ => exact (hedit trivial).elim

theorem Command.keeps (command : Command) (e : Entity) : e.Keeps (command.apply e) :=
  (command.keeps_of_apply e).1

/-- A change that an application makes to an entity. -/
structure Revision where
  change : Entity → Entity
  keeps : ∀ e, Entity.Keeps e (change e)

/-- Any commands, one after the other. -/
def Revision.ofCommands (commands : List Command) : Revision where
  change e := commands.foldl Command.apply e
  keeps e := by
    induction commands generalizing e with
    | nil => exact .refl e
    | cons command rest ih => exact (command.keeps e).trans (ih _)

end Entity

/-! ### Hooks -/

variable {σ : Type}

/-- Every registration leads from an entity to one that it is in a relation to. -/
structure Hooks.Within (R : Entity → Entity → Prop) (hooks : Hooks σ) : Prop where
  hook : ∀ hook ∈ hooks.hooks, ∀ m e result state, R e (hook.call m e result state).entity
  handler : ∀ handler ∈ hooks.handlers, ∀ m e change state,
    R e (handler.call m e change state).entity

namespace Hooks.Within

theorem mono {R R' : Entity → Entity → Prop} {hooks : Hooks σ} (h : hooks.Within R)
    (himp : ∀ e e', R e e' → R' e e') : hooks.Within R' :=
  ⟨fun hook hhook m e result state => himp _ _ (h.hook hook hhook m e result state),
    fun handler hhandler m e change state => himp _ _ (h.handler handler hhandler m e change state)⟩

variable {R : Entity → Entity → Prop} {hooks : Hooks σ} {m : Moment} {phase : Phase}
  (hrefl : ∀ e, R e e) (htrans : ∀ a b c, R a b → R b c → R a c)

include hrefl htrans

theorem runEach {result : Option QueryResult} {list : List (PhaseHook σ)}
    (h : ∀ hook ∈ list, ∀ m e result state, R e (hook.call m e result state).entity) (e : Entity)
    (state : σ) : R e (Hooks.runEach m phase result list e state).entity := by
  induction list generalizing e state with
  | nil => exact hrefl e
  | cons hook rest ih =>
    have hrest := ih fun hook hhook => h hook (List.mem_cons_of_mem _ hhook)
    have hdone := h hook (List.mem_cons_self ..) m e result state
    rw [Hooks.runEach]
    split
    · dsimp only
      split
      · exact hdone
      · exact htrans _ _ _ hdone (hrest _ _)
    · exact hrest e state

theorem handleEach {field : String} {change : Change} {list : List (FieldHandler σ)}
    (h : ∀ handler ∈ list, ∀ m e change state, R e (handler.call m e change state).entity)
    (e : Entity) (state : σ) :
    R e (Hooks.handleEach m field change list e state).entity := by
  induction list generalizing e state with
  | nil => exact hrefl e
  | cons handler rest ih =>
    have hrest := ih fun handler hhandler => h handler (List.mem_cons_of_mem _ hhandler)
    have hdone := h handler (List.mem_cons_self ..) m e change state
    rw [Hooks.handleEach]
    split
    · dsimp only
      split
      · exact hdone
      · exact htrans _ _ _ hdone (hrest _ _)
    · exact hrest e state

/-- Running the hooks of a phase stays within a reflexive and transitive relation. There may be any
number of hooks for a phase, also none, so a run needs these two properties and nothing else about
the relation. -/
theorem run (h : hooks.Within R) (e : Entity) (result : Option QueryResult) (state : σ) :
    R e (hooks.run m phase e result state).entity :=
  runEach hrefl htrans h.hook e state

theorem dispatch (h : hooks.Within R) (e : Entity) (changes : Dict Change)
    (result : Option QueryResult) (state : σ) :
    R e (hooks.dispatch m e changes result state).entity := by
  rw [Hooks.dispatch]
  generalize false = unhandled
  induction changes.toList generalizing unhandled e state with
  | nil =>
    rw [dispatchEach]
    split
    · exact h.run hrefl htrans e result state
    · exact hrefl e
  | cons entry rest ih =>
    obtain ⟨field, change⟩ := entry
    have hhandled : R e (Hooks.handleEach m field change hooks.handlers e state).entity :=
      handleEach hrefl htrans h.handler e state
    rw [dispatchEach]
    dsimp only
    split
    · exact hhandled
    · exact htrans _ _ _ hhandled (ih _ _ _)

end Hooks.Within

/-- The hook keeps the variable, the type name and the kind of the entities it is called with. -/
def Hook.Restrained (call : Hook σ) : Prop :=
  ∀ m e result state, Entity.Keeps e (call m e result state).entity

/-- The handler keeps them. -/
def Handler.Restrained (call : Handler σ) : Prop :=
  ∀ m e change state, Entity.Keeps e (call m e change state).entity

/-- All registrations keep them. -/
structure Hooks.Restrained (hooks : Hooks σ) : Prop where
  hook : ∀ hook ∈ hooks.hooks, Hook.Restrained hook.call
  handler : ∀ handler ∈ hooks.handlers, Handler.Restrained handler.call

namespace Hooks.Restrained

variable {hooks : Hooks σ}

theorem empty : (Hooks.empty : Hooks σ).Restrained :=
  ⟨fun _ h => absurd h List.not_mem_nil, fun _ h => absurd h List.not_mem_nil⟩

theorem register (h : hooks.Restrained) (typeName : String) (phase : Phase) {call : Hook σ}
    (hcall : Hook.Restrained call) :
    (hooks.register typeName phase call).2.Restrained := by
  refine ⟨fun hook hhook => ?_, h.handler⟩
  rcases List.mem_append.mp hhook with hold | hnew
  · exact h.hook hook hold
  · obtain rfl := List.mem_singleton.mp hnew
    exact hcall

theorem onChanged (h : hooks.Restrained) (typeName field : String) {call : Handler σ}
    (hcall : Handler.Restrained call) :
    (hooks.onChanged typeName field call).2.Restrained := by
  refine ⟨h.hook, fun handler hhandler => ?_⟩
  rcases List.mem_append.mp hhandler with hold | hnew
  · exact h.handler handler hold
  · obtain rfl := List.mem_singleton.mp hnew
    exact hcall

theorem unregister (h : hooks.Restrained) (handle : HookHandle) :
    (hooks.unregister handle).2.Restrained :=
  ⟨fun hook hhook => h.hook hook ((List.mem_filter.mp hhook).1),
    fun handler hhandler => h.handler handler ((List.mem_filter.mp hhandler).1)⟩

end Hooks.Restrained

theorem Hooks.Within.restrained {hooks : Hooks σ} (h : hooks.Within Entity.Keeps) :
    hooks.Restrained := ⟨h.hook, h.handler⟩

theorem Hooks.Restrained.within {hooks : Hooks σ} (h : hooks.Restrained) :
    hooks.Within Entity.Keeps := ⟨h.hook, h.handler⟩

end GraphMapping
