import GraphMapping.Connection.Result
import GraphMapping.Entity.Basic

/-!
# Hooks

Applications register hooks for a type and a phase, and handlers for a type and a field. A hook may
edit its entity and change the application's own state `σ`, and it may fail; what it did before it
failed stays done. Registering returns a handle by which the registration can be taken back.

A run also reports the handles that were called, in order, up to and including a failing one.

## Main definitions

* `HookOutcome`, `Hook`, `Handler`: what applications register.
* `Hooks`: the registrations, in order.
* `Hooks.run`: the hooks of a phase on an entity.
* `Hooks.dispatch`: the handlers of changed fields, and the hooks for changes that nobody handled.
-/

namespace GraphMapping

/-- What calling a hook led to. -/
structure HookOutcome (σ : Type) where
  entity : Entity
  state : σ
  /-- The reason why the hook failed, if it did. -/
  failure : Option String

/-- A hook for a phase. It sees the result of the statement when one has been executed. -/
abbrev Hook (σ : Type) := Moment → Entity → Option QueryResult → σ → HookOutcome σ

/-- A handler for the change of a field. -/
abbrev Handler (σ : Type) := Moment → Entity → Change → σ → HookOutcome σ

/-- Names a registration. -/
structure HookHandle where
  number : Nat
deriving DecidableEq, Repr

/-- A hook registered for a type and a phase. -/
structure PhaseHook (σ : Type) where
  handle : HookHandle
  typeName : String
  phase : Phase
  call : Hook σ

/-- A handler registered for a field of a type. -/
structure FieldHandler (σ : Type) where
  handle : HookHandle
  typeName : String
  field : String
  call : Handler σ

/-- The registrations of an application. Hooks and handlers are numbered together. -/
structure Hooks (σ : Type) where
  next : Nat := 0
  hooks : List (PhaseHook σ) := []
  handlers : List (FieldHandler σ) := []

/-- What running hooks on an entity led to. -/
structure HookRun (σ : Type) where
  entity : Entity
  state : σ
  /-- The hooks and handlers that were called, in order. -/
  called : List HookHandle
  outcome : Except MapperError Unit

namespace Hooks

variable {σ : Type}

/-- No registrations. -/
def empty : Hooks σ := {}

instance : Inhabited (Hooks σ) := ⟨empty⟩

/-! ### Registration -/

/-- Register a hook behind the others. -/
def register (hooks : Hooks σ) (typeName : String) (phase : Phase) (call : Hook σ) :
    HookHandle × Hooks σ :=
  (⟨hooks.next⟩,
    { hooks with
      next := hooks.next + 1
      hooks := hooks.hooks ++ [⟨⟨hooks.next⟩, typeName, phase, call⟩] })

/-- Register a handler behind the others. -/
def onChanged (hooks : Hooks σ) (typeName field : String) (call : Handler σ) :
    HookHandle × Hooks σ :=
  (⟨hooks.next⟩,
    { hooks with
      next := hooks.next + 1
      handlers := hooks.handlers ++ [⟨⟨hooks.next⟩, typeName, field, call⟩] })

/-- The handles of all registrations. -/
def handles (hooks : Hooks σ) : List HookHandle :=
  hooks.hooks.map (·.handle) ++ hooks.handlers.map (·.handle)

/-- The number of registrations. -/
def size (hooks : Hooks σ) : Nat := hooks.hooks.length + hooks.handlers.length

/-- Take a registration back. The flag says whether it was there. -/
def unregister (hooks : Hooks σ) (handle : HookHandle) : Bool × Hooks σ :=
  let left := { hooks with
    hooks := hooks.hooks.filter (·.handle ≠ handle)
    handlers := hooks.handlers.filter (·.handle ≠ handle) }
  (left.size ≠ hooks.size, left)

/-! ### Running -/

/-- Call the given hooks in order where phase and type fit, up to the first failure. -/
def runEach (m : Moment) (phase : Phase) (result : Option QueryResult) :
    List (PhaseHook σ) → Entity → σ → HookRun σ
  | [], e, state => ⟨e, state, [], .ok ()⟩
  | hook :: rest, e, state =>
    if hook.phase = phase ∧ hook.typeName = e.typeName then
      let done := hook.call m e result state
      match done.failure with
      | some message => ⟨done.entity, done.state, [hook.handle], .error (.hook phase message)⟩
      | none =>
        let run := runEach m phase result rest done.entity done.state
        { run with called := hook.handle :: run.called }
    else runEach m phase result rest e state

/-- Run the hooks of a phase on an entity. -/
def run (hooks : Hooks σ) (m : Moment) (phase : Phase) (e : Entity)
    (result : Option QueryResult) (state : σ) : HookRun σ :=
  runEach m phase result hooks.hooks e state

/-- Call the given handlers in order where field and type fit, up to the first failure. -/
def handleEach (m : Moment) (field : String) (change : Change) :
    List (FieldHandler σ) → Entity → σ → HookRun σ
  | [], e, state => ⟨e, state, [], .ok ()⟩
  | handler :: rest, e, state =>
    if handler.field = field ∧ handler.typeName = e.typeName then
      let done := handler.call m e change state
      match done.failure with
      | some message =>
        ⟨done.entity, done.state, [handler.handle],
          .error (.hook .propertyChanged (field ++ ": " ++ message))⟩
      | none =>
        let run := handleEach m field change rest done.entity done.state
        { run with called := handler.handle :: run.called }
    else handleEach m field change rest e state

/-- Dispatch changes field by field; the hooks for changes run once at the end if a field had no
handler, of which `unhandled` keeps track. -/
def dispatchEach (hooks : Hooks σ) (m : Moment) (result : Option QueryResult) :
    List (String × Change) → Bool → Entity → σ → HookRun σ
  | [], unhandled, e, state =>
    if unhandled then hooks.run m .propertyChanged e result state else ⟨e, state, [], .ok ()⟩
  | (field, change) :: rest, unhandled, e, state =>
    let handled := handleEach m field change hooks.handlers e state
    match handled.outcome with
    | .error _ => handled
    | .ok () =>
      let run := dispatchEach hooks m result rest (unhandled || handled.called.isEmpty)
        handled.entity handled.state
      { run with called := handled.called ++ run.called }

/-- Dispatch the changes of an entity, in order of field. -/
def dispatch (hooks : Hooks σ) (m : Moment) (e : Entity) (changes : Dict Change)
    (result : Option QueryResult) (state : σ) : HookRun σ :=
  hooks.dispatchEach m result changes.toList false e state

end Hooks

end GraphMapping
