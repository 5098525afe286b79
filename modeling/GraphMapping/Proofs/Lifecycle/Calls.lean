import GraphMapping.Proofs.Lifecycle.Dispatch

/-!
# Which hooks are called

The hooks of a phase are those that are registered for it and for the type of the entity, in the
order of registration. When changes are dispatched, each field in turn has its handlers called, and
at the end the hooks for changes if a field had none. A run stops at the first failure, so that what
was called is always the beginning of this, and all of it in a run that succeeds.

The type of the entity is read anew before each call. For this hooks must not change it. Then a run
keeps to its plan (`Hooks.Followed`), and this is about the handles of the plan.

## Main definitions

* `Hooks.handlesOf`, `Hooks.handlersOf`: the registrations for a phase, and for a field.
* `Hooks.reporting`: the registrations that are called for changed fields.

## Main results

* `Hooks.calls_run`, `Hooks.calls_dispatch`: what running hooks and dispatching changes call.
-/

namespace GraphMapping

variable {σ : Type}

namespace Hooks

variable (hooks : Hooks σ)

/-- The registrations for a phase and a type. -/
def handlesOf (phase : Phase) (typeName : String) : List HookHandle :=
  (hooks.hooks.filter fun hook => hook.phase = phase ∧ hook.typeName = typeName).map (·.handle)

/-- The registrations for a field of a type. -/
def handlersOf (typeName field : String) : List HookHandle :=
  (hooks.handlers.filter fun handler =>
    handler.field = field ∧ handler.typeName = typeName).map (·.handle)

/-- The registrations that are called for changed fields: the handlers of each, and the hooks for
changes if there is a field without handlers. -/
def reporting (typeName : String) (fields : List String) : List HookHandle :=
  fields.flatMap (hooks.handlersOf typeName) ++
    if fields.any fun field => (hooks.handlersOf typeName field).isEmpty then
      hooks.handlesOf .propertyChanged typeName
    else []

variable {hooks} {m : Moment} {R : Entity → Entity → Prop}

theorem map_handle_hookCalls (phase : Phase) (typeName : String) :
    (forType typeName (hooks.hookCalls phase)).map Call.handle =
      hooks.handlesOf phase typeName := by
  rw [forType, hookCalls, List.filter_map, List.map_map, List.filter_filter, handlesOf]
  refine congrArg (List.map PhaseHook.handle) (List.filter_congr fun hook _ => ?_)
  rw [Bool.decide_and, Bool.and_comm]
  rfl

theorem map_handle_fieldCalls (entry : String × Change) (typeName : String) :
    (forType typeName (hooks.fieldCalls entry)).map Call.handle =
      hooks.handlersOf typeName entry.1 := by
  rw [forType, fieldCalls, List.filter_map, List.map_map, List.filter_filter, handlersOf]
  refine congrArg (List.map FieldHandler.handle) (List.filter_congr fun handler _ => ?_)
  rw [Bool.decide_and, Bool.and_comm]
  rfl

theorem map_handle_callsFor (typeName : String) (changes : Dict Change) :
    (hooks.callsFor typeName changes).map Call.handle =
      hooks.reporting typeName (changes.toList.map Prod.fst) := by
  have hempty : ∀ entry : String × Change, (forType typeName (hooks.fieldCalls entry)).isEmpty =
      (hooks.handlersOf typeName entry.1).isEmpty := by
    intro entry
    rw [← map_handle_fieldCalls, List.isEmpty_map]
  have hhandlers : (forType typeName (hooks.handlerCalls changes.toList)).map Call.handle =
      (changes.toList.map Prod.fst).flatMap (hooks.handlersOf typeName) := by
    rw [forType, handlerCalls, List.filter_flatMap, List.map_flatMap, List.flatMap_map]
    exact List.flatMap_congr fun entry _ => map_handle_fieldCalls entry typeName
  rw [callsFor, reporting, List.map_append, hhandlers, List.any_map]
  simp only [hempty, Function.comp_def, apply_ite (List.map Call.handle), map_handle_hookCalls,
    List.map_nil]

variable (htype : ∀ e e', R e e' → e'.typeName = e.typeName) (h : hooks.Within R)

include htype h

/-- Running the hooks of a phase calls those that are registered for it. They are those for the type
that the entity has at first, which is why the hooks have to keep it. -/
theorem calls_run (phase : Phase) (e : Entity) (result : Option QueryResult) (state : σ) :
    (hooks.run m phase e result state).Calls (hooks.handlesOf phase e.typeName) := by
  obtain ⟨made, hswept⟩ := swept_runEach m phase result hooks.hooks e state
  rw [← map_handle_hookCalls]
  refine hswept.followed.calls_of_keepsType fun call hcall e state => ?_
  obtain ⟨hook, hhook, -, rfl⟩ := mem_hookCalls.mp (mem_forType.mp hcall).1
  exact htype _ _ (h.hook hook hhook m e result state)

/-- Dispatching changes calls what is registered for the fields: the handlers field by field, and
the hooks for changes once, behind all handlers, if some field has no handler. -/
theorem calls_dispatch (e : Entity) (changes : Dict Change) (result : Option QueryResult)
    (state : σ) : (hooks.dispatch m e changes result state).Calls
      (hooks.reporting e.typeName (changes.toList.map Prod.fst)) := by
  have hcourse := course_dispatchEach hooks m result changes.nodup_names false e state
  rw [← map_handle_callsFor]
  refine hcourse.followed.calls_of_keepsType fun call hcall e state => ?_
  cases call with
  | handler handler change =>
    exact htype _ _ (h.handler handler (handler_mem_callsFor.mp hcall).1 m e change state)
  | hook hook => exact htype _ _ (h.hook hook (hook_mem_callsFor.mp hcall).1 m e result state)

end Hooks

end GraphMapping
