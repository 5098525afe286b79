import GraphMapping.Proofs.Lifecycle.Restraint
import GraphMapping.Proofs.Property.Slots

/-!
# What dispatching changes does

A dispatch goes through the changed fields in order and calls the handlers of each; at the end it
calls the hooks for changes if there was a field that no handler was called for. Every registration
has its turn once. Before each call the type of the entity is read, and the call is made if it is
registered for this type; the first that fails is the last that is made.

What earlier calls did to the entity is found by the later ones, but which calls there are does not
depend on it: nothing that an entity offers changes its type. They can be told beforehand from the
registrations, the type at the start and the changes, and the dispatch keeps to this plan. Only a
hook that puts an entity of another type in the place of its own ends the plan. The registrations
that have not had their turns by then are gone through for the type that is found.

## Main definitions

* `Hooks.Call`, `Hooks.Call.make`: a call of a dispatch, and what it leads to.
* `Hooks.callsFor`: the calls that changes of an entity of a type give rise to.
* `Hooks.Sweep`, `Hooks.Swept`: calls have their turns.
* `Hooks.Succeed`: calls succeed one after the other.
* `Hooks.Followed`: calls were made as planned, as long as the type was left alone.
* `Hooks.Course`: what a dispatch did, turn by turn.
* `Hooks.Dispatched`: what is known of a dispatch when it has ended.

## Main results

* `Hooks.handler_mem_callsFor`, `Hooks.hook_mem_callsFor`: which calls are planned.
* `Hooks.swept_handleEach`, `Hooks.swept_runEach`: both loops over registrations give turns.
* `Hooks.Swept.followed`: turns follow a plan.
* `Hooks.dispatched_dispatch`: the above for a dispatch, whatever is registered.
-/

namespace GraphMapping

variable {σ : Type}

namespace Hooks

/-! ### Calls -/

/-- A call of a dispatch: of a handler with the change of its field, or of a hook for changes. -/
inductive Call (σ : Type) where
  | handler (entry : FieldHandler σ) (change : Change)
  | hook (entry : PhaseHook σ)

namespace Call

/-- The registration that is called. -/
def handle : Call σ → HookHandle
  | handler entry _ => entry.handle
  | hook entry => entry.handle

/-- The type that the registration is for. -/
def typeName : Call σ → String
  | handler entry _ => entry.typeName
  | hook entry => entry.typeName

/-- What the call leads to. -/
def make (m : Moment) (result : Option QueryResult) : Call σ → Entity → σ → HookOutcome σ
  | handler entry change, e, state => entry.call m e change state
  | hook entry, e, state => entry.call m e result state

/-- What a failure of the call is reported as: for a handler it names the field. -/
def describe (message : String) : Call σ → String
  | handler entry _ => entry.field ++ ": " ++ message
  | hook _ => message

/-- Whatever else the call does to its entity, it leaves the type name alone. -/
def KeepsType (m : Moment) (result : Option QueryResult) (call : Call σ) : Prop :=
  ∀ e state, (call.make m result e state).entity.typeName = e.typeName

end Call

/-- The calls that are registered for a type. -/
def forType (typeName : String) (calls : List (Call σ)) : List (Call σ) :=
  calls.filter (·.typeName = typeName)

section ForType

variable {typeName : String} {call : Call σ}

theorem mem_forType {calls : List (Call σ)} :
    call ∈ forType typeName calls ↔ call ∈ calls ∧ call.typeName = typeName := by
  rw [forType, List.mem_filter, decide_eq_true_iff]

theorem forType_cons_of_eq (h : call.typeName = typeName) (calls : List (Call σ)) :
    forType typeName (call :: calls) = call :: forType typeName calls :=
  List.filter_cons_of_pos (decide_eq_true h)

theorem forType_cons_of_ne (h : call.typeName ≠ typeName) (calls : List (Call σ)) :
    forType typeName (call :: calls) = forType typeName calls :=
  List.filter_cons_of_neg (by simpa using h)

theorem forType_append (calls calls' : List (Call σ)) :
    forType typeName (calls ++ calls') = forType typeName calls ++ forType typeName calls' :=
  List.filter_append ..

theorem forType_sublist (calls : List (Call σ)) : (forType typeName calls).Sublist calls :=
  List.filter_sublist

end ForType

variable (hooks : Hooks σ)

/-- The handlers of a changed field, of whatever type, each with the change, in the order of
registration. -/
def fieldCalls (entry : String × Change) : List (Call σ) :=
  (hooks.handlers.filter (·.field = entry.1)).map (Call.handler · entry.2)

/-- The handlers of changed fields, in the order of the fields. -/
def handlerCalls (entries : List (String × Change)) : List (Call σ) :=
  entries.flatMap hooks.fieldCalls

/-- The hooks of a phase, of whatever type, in the order of registration. -/
def hookCalls (phase : Phase) : List (Call σ) :=
  (hooks.hooks.filter (·.phase = phase)).map Call.hook

/-- The calls that changes of an entity of a type give rise to: the handlers of the changed fields,
in the order of the fields, and the hooks for changes if a field has no handler. -/
def callsFor (typeName : String) (changes : Dict Change) : List (Call σ) :=
  forType typeName (hooks.handlerCalls changes.toList) ++
    if changes.toList.any fun entry => (forType typeName (hooks.fieldCalls entry)).isEmpty then
      forType typeName (hooks.hookCalls .propertyChanged)
    else []

variable {hooks} {typeName : String} {changes : Dict Change} {call : Call σ}

theorem mem_fieldCalls {entry : String × Change} :
    call ∈ hooks.fieldCalls entry ↔
      ∃ handler ∈ hooks.handlers, handler.field = entry.1 ∧ .handler handler entry.2 = call := by
  simp only [fieldCalls, List.mem_map, List.mem_filter, decide_eq_true_eq, and_assoc]

theorem mem_handlerCalls {entries : List (String × Change)} :
    call ∈ hooks.handlerCalls entries ↔ ∃ entry ∈ entries, call ∈ hooks.fieldCalls entry :=
  List.mem_flatMap

theorem mem_hookCalls {phase : Phase} : call ∈ hooks.hookCalls phase ↔
    ∃ hook ∈ hooks.hooks, hook.phase = phase ∧ .hook hook = call := by
  simp only [hookCalls, List.mem_map, List.mem_filter, decide_eq_true_eq, and_assoc]

theorem handler_mem_handlerCalls {entries : List (String × Change)} {handler : FieldHandler σ}
    {change : Change} : .handler handler change ∈ hooks.handlerCalls entries ↔
      handler ∈ hooks.handlers ∧ (handler.field, change) ∈ entries := by
  rw [mem_handlerCalls]
  constructor
  · rintro ⟨⟨field, own⟩, hentry, hmem⟩
    obtain ⟨_, hhandler, rfl, heq⟩ := mem_fieldCalls.mp hmem
    obtain ⟨rfl, rfl⟩ := Call.handler.inj heq
    exact ⟨hhandler, hentry⟩
  · rintro ⟨hhandler, hentry⟩
    exact ⟨_, hentry, mem_fieldCalls.mpr ⟨handler, hhandler, rfl, rfl⟩⟩

theorem hook_not_mem_handlerCalls {entries : List (String × Change)} {hook : PhaseHook σ} :
    .hook hook ∉ hooks.handlerCalls entries := by
  intro hmem
  obtain ⟨entry, -, hmem⟩ := mem_handlerCalls.mp hmem
  obtain ⟨_, -, -, heq⟩ := mem_fieldCalls.mp hmem
  cases heq

theorem hook_mem_hookCalls {phase : Phase} {hook : PhaseHook σ} :
    .hook hook ∈ hooks.hookCalls phase ↔ hook ∈ hooks.hooks ∧ hook.phase = phase := by
  rw [mem_hookCalls]
  constructor
  · rintro ⟨_, hhook, hphase, heq⟩
    obtain rfl := Call.hook.inj heq
    exact ⟨hhook, hphase⟩
  · rintro ⟨hhook, hphase⟩
    exact ⟨hook, hhook, hphase, rfl⟩

theorem handler_not_mem_hookCalls {phase : Phase} {handler : FieldHandler σ} {change : Change} :
    .handler handler change ∉ hooks.hookCalls phase := by
  intro hmem
  obtain ⟨_, -, -, heq⟩ := mem_hookCalls.mp hmem
  cases heq

/-- The type has no handler for the field. -/
def Unhandled (hooks : Hooks σ) (typeName field : String) : Prop :=
  ∀ handler ∈ hooks.handlers, ¬(handler.field = field ∧ handler.typeName = typeName)

theorem isEmpty_forType_fieldCalls {entry : String × Change} :
    (forType typeName (hooks.fieldCalls entry)).isEmpty = true ↔ hooks.Unhandled typeName entry.1 := by
  rw [List.isEmpty_iff, forType, List.filter_eq_nil_iff]
  constructor
  · rintro hnone handler hhandler ⟨hfield, htype⟩
    exact hnone _ (mem_fieldCalls.mpr ⟨handler, hhandler, hfield, rfl⟩) (decide_eq_true htype)
  · intro hunhandled call hcall htype
    obtain ⟨handler, hhandler, hfield, rfl⟩ := mem_fieldCalls.mp hcall
    exact hunhandled handler hhandler ⟨hfield, of_decide_eq_true htype⟩

/-- Some changed field has no handler. -/
theorem any_isEmpty_iff :
    (changes.toList.any fun entry => (forType typeName (hooks.fieldCalls entry)).isEmpty) = true ↔
      ∃ field, (changes.get? field).isSome ∧ hooks.Unhandled typeName field := by
  rw [List.any_eq_true]
  constructor
  · rintro ⟨entry, hentry, hempty⟩
    have hget := Dict.get?_eq_some_iff.mpr hentry
    exact ⟨entry.1, hget ▸ rfl, isEmpty_forType_fieldCalls.mp hempty⟩
  · rintro ⟨field, hfield, hunhandled⟩
    obtain ⟨change, hget⟩ := Option.isSome_iff_exists.mp hfield
    exact ⟨(field, change), Dict.get?_eq_some_iff.mp hget, isEmpty_forType_fieldCalls.mpr hunhandled⟩

/-- A handler is called for its field, with the change of this field. -/
theorem handler_mem_callsFor {handler : FieldHandler σ} {change : Change} :
    .handler handler change ∈ hooks.callsFor typeName changes ↔
      handler ∈ hooks.handlers ∧ handler.typeName = typeName ∧
        changes.get? handler.field = some change := by
  have hend : ∀ b : Bool, .handler handler change ∉
      if b then forType typeName (hooks.hookCalls .propertyChanged) else [] := by
    intro b
    cases b
    · exact List.not_mem_nil
    · exact fun hmem => handler_not_mem_hookCalls (mem_forType.mp hmem).1
  rw [callsFor, List.mem_append, or_iff_left (hend _), mem_forType, handler_mem_handlerCalls,
    Dict.get?_eq_some_iff]
  exact ⟨fun ⟨⟨hhandler, hentry⟩, htype⟩ => ⟨hhandler, htype, hentry⟩,
    fun ⟨hhandler, htype, hentry⟩ => ⟨⟨hhandler, hentry⟩, htype⟩⟩

/-- A hook for changes is called when some changed field has no handler. It is told of the phase and
not of a field, so one call stands for all of these fields. -/
theorem hook_mem_callsFor {hook : PhaseHook σ} :
    .hook hook ∈ hooks.callsFor typeName changes ↔
      hook ∈ hooks.hooks ∧ hook.phase = .propertyChanged ∧ hook.typeName = typeName ∧
        ∃ field, (changes.get? field).isSome ∧ hooks.Unhandled typeName field := by
  have hhandlers : .hook hook ∉ forType typeName (hooks.handlerCalls changes.toList) :=
    fun hmem => hook_not_mem_handlerCalls (mem_forType.mp hmem).1
  rw [callsFor, List.mem_append, or_iff_right hhandlers, ← any_isEmpty_iff]
  split
  · rename_i hany
    rw [mem_forType, hook_mem_hookCalls]
    exact ⟨fun ⟨⟨hhook, hphase⟩, htype⟩ => ⟨hhook, hphase, htype, hany⟩,
      fun ⟨hhook, hphase, htype, _⟩ => ⟨⟨hhook, hphase⟩, htype⟩⟩
  · rename_i hany
    simp [hany]

/-- No registration has two turns: a handler is registered for one field, and each field has changed
once. -/
theorem nodup_handles (hnodup : hooks.handles.Nodup) (changes : Dict Change) :
    ((hooks.handlerCalls changes.toList ++ hooks.hookCalls .propertyChanged).map
      Call.handle).Nodup := by
  obtain ⟨hhooks, hhandlers, hapart⟩ := List.nodup_append.mp hnodup
  have hone : ∀ entry : String × Change, ((hooks.fieldCalls entry).map Call.handle).Sublist
      (hooks.handlers.map (·.handle)) := by
    intro entry
    rw [fieldCalls, List.map_map]
    exact List.filter_sublist.map _
  have hgeneric : ((hooks.hookCalls .propertyChanged).map Call.handle).Sublist
      (hooks.hooks.map (·.handle)) := by
    rw [hookCalls, List.map_map]
    exact List.filter_sublist.map _
  rw [handlerCalls, List.map_append, List.map_flatMap, List.nodup_append]
  refine ⟨List.nodup_flatMap.mpr ⟨fun entry _ => (hone entry).nodup hhandlers, ?_⟩,
    hgeneric.nodup hhooks, ?_⟩
  · refine (List.pairwise_map.mp changes.nodup_names).imp fun {a b} hne handle ha hb => ?_
    obtain ⟨call, hcall, rfl⟩ := List.mem_map.mp ha
    obtain ⟨call', hcall', heq⟩ := List.mem_map.mp hb
    obtain ⟨handler, hhandler, hfield, rfl⟩ := mem_fieldCalls.mp hcall
    obtain ⟨handler', hhandler', hfield', rfl⟩ := mem_fieldCalls.mp hcall'
    obtain rfl := List.inj_on_of_nodup_map hhandlers hhandler' hhandler heq
    exact hne (hfield.symm.trans hfield')
  · intro handle hhandle other hother
    obtain ⟨entry, -, hentry⟩ := List.mem_flatMap.mp hhandle
    exact (hapart _ (hgeneric.subset hother) _ ((hone entry).subset hentry)).symm

theorem callsFor_sublist : (hooks.callsFor typeName changes).Sublist
    (hooks.handlerCalls changes.toList ++ hooks.hookCalls .propertyChanged) := by
  refine (forType_sublist _).append ?_
  split
  · exact forType_sublist _
  · exact List.nil_sublist _

/-! ### Turns -/

/-- The calls succeed one after the other, each on the entity and the state that the one before it
left behind. -/
inductive Succeed (m : Moment) (result : Option QueryResult) :
    List (Call σ) → Entity × σ → Entity × σ → Prop
  | nil {x : Entity × σ} : Succeed m result [] x x
  | cons {call : Call σ} {rest : List (Call σ)} {x y : Entity × σ} {e : Entity} {state : σ} :
    call.make m result x.1 x.2 = ⟨e, state, none⟩ → Succeed m result rest (e, state) y →
      Succeed m result (call :: rest) x y

/-- Calls have their turns one after the other: one that is registered for the type that the entity
has at its turn is made, and succeeds; the others are passed over. -/
inductive Sweep (m : Moment) (result : Option QueryResult) :
    List (Call σ) → Entity × σ → List (Call σ) → Entity × σ → Prop
  | nil {x : Entity × σ} : Sweep m result [] x [] x
  | pass {call : Call σ} {rest made : List (Call σ)} {x y : Entity × σ} :
    call.typeName ≠ x.1.typeName → Sweep m result rest x made y →
      Sweep m result (call :: rest) x made y
  | call {call : Call σ} {rest made : List (Call σ)} {x y : Entity × σ} {e : Entity} {state : σ} :
    call.typeName = x.1.typeName → call.make m result x.1 x.2 = ⟨e, state, none⟩ →
      Sweep m result rest (e, state) made y → Sweep m result (call :: rest) x (call :: made) y

/-- A run gave calls their turns, up to the first failure, and made some of them. -/
inductive Swept (m : Moment) (phase : Phase) (result : Option QueryResult) (calls : List (Call σ))
    (x : Entity × σ) (run : HookRun σ) : List (Call σ) → Prop
  /-- All have had their turns. -/
  | ended {made : List (Call σ)} (sweep : Sweep m result calls x made (run.entity, run.state))
    (called : run.called = made.map Call.handle) (ok : run.outcome = .ok ()) :
    Swept m phase result calls x run made
  /-- One that was made failed; those behind it have no turns. -/
  | failed {made : List (Call σ)} (before : List (Call σ)) (call : Call σ) (after : List (Call σ))
    (mid : Entity × σ) (message : String) (split : calls = before ++ call :: after)
    (sweep : Sweep m result before x made mid) (fits : call.typeName = mid.1.typeName)
    (fails : call.make m result mid.1 mid.2 = ⟨run.entity, run.state, some message⟩)
    (called : run.called = (made ++ [call]).map Call.handle)
    (error : run.outcome = .error (.hook phase (call.describe message))) :
    Swept m phase result calls x run (made ++ [call])

variable {m : Moment} {phase : Phase} {result : Option QueryResult} {calls calls' : List (Call σ)}
  {made made' : List (Call σ)} {x y z : Entity × σ} {run : HookRun σ}

theorem Succeed.append (h : Succeed m result calls x y) (h' : Succeed m result calls' y z) :
    Succeed m result (calls ++ calls') x z := by
  induction h with
  | nil => exact h'
  | cons hmake _ ih => exact .cons hmake (ih h')

namespace Sweep

theorem append (h : Sweep m result calls x made y) (h' : Sweep m result calls' y made' z) :
    Sweep m result (calls ++ calls') x (made ++ made') z := by
  induction h with
  | nil => exact h'
  | pass hne _ ih => exact .pass hne (ih h')
  | call heq hmake _ ih => exact .call heq hmake (ih h')

theorem sublist (h : Sweep m result calls x made y) : made.Sublist calls := by
  induction h with
  | nil => exact .slnil
  | pass _ _ ih => exact ih.cons _
  | call _ _ _ ih => exact ih.cons_cons _

end Sweep

namespace Swept

theorem called_eq (h : Swept m phase result calls x run made) :
    run.called = made.map Call.handle := by
  cases h with
  | ended _ called _ => exact called
  | failed _ _ _ _ _ _ _ _ _ called _ => exact called

theorem sublist (h : Swept m phase result calls x run made) : made.Sublist calls := by
  cases h with
  | ended sweep _ _ => exact sweep.sublist
  | failed _ _ _ _ _ split sweep _ _ _ _ =>
    rw [split]
    exact sweep.sublist.append ((List.nil_sublist _).cons_cons _)

/-- A call for another type is passed over. -/
theorem pass (hne : call.typeName ≠ x.1.typeName) (h : Swept m phase result calls x run made) :
    Swept m phase result (call :: calls) x run made := by
  cases h with
  | ended sweep called ok => exact .ended (.pass hne sweep) called ok
  | failed before last after mid message split sweep fits fails called error =>
    exact .failed (call :: before) last after mid message (congrArg (call :: ·) split)
      (.pass hne sweep) fits fails called error

/-- Calls have had their turns, and others have theirs. -/
theorem after (h : Sweep m result calls x made y) (h' : Swept m phase result calls' y run made') :
    Swept m phase result (calls ++ calls') x
      { run with called := made.map Call.handle ++ run.called } (made ++ made') := by
  cases h' with
  | ended sweep called ok =>
    refine .ended (h.append sweep) ?_ ok
    rw [List.map_append, called]
  | failed before call after mid message split sweep fits fails called error =>
    rw [← List.append_assoc]
    refine .failed (calls ++ before) call after mid message ?_ (h.append sweep) fits fails ?_ error
    · rw [split, List.append_assoc]
    · simp only [called, List.map_append, List.append_assoc]

/-- After a failure nothing more is called. -/
theorem append_of_ne_ok (h : Swept m phase result calls x run made) (hfails : run.outcome ≠ .ok ())
    (calls' : List (Call σ)) : Swept m phase result (calls ++ calls') x run made := by
  cases h with
  | ended _ _ ok => exact absurd ok hfails
  | failed before call after mid message split sweep fits fails called error =>
    refine .failed before call (after ++ calls') mid message ?_ sweep fits fails called error
    rw [split, List.append_assoc, List.cons_append]

end Swept

/-- Running the hooks of a phase gives those their turns that are registered for it. -/
theorem swept_runEach (m : Moment) (phase : Phase) (result : Option QueryResult)
    (list : List (PhaseHook σ)) (e : Entity) (state : σ) :
    ∃ made, Swept m phase result ((list.filter (·.phase = phase)).map Call.hook) (e, state)
      (runEach m phase result list e state) made := by
  induction list generalizing e state with
  | nil => exact ⟨[], .ended .nil rfl rfl⟩
  | cons hook rest ih =>
    rw [runEach]
    by_cases hphase : hook.phase = phase
    · rw [List.filter_cons_of_pos (by simpa using hphase), List.map_cons]
      by_cases htype : hook.typeName = e.typeName
      · rw [if_pos ⟨hphase, htype⟩]
        rcases hmake : hook.call m e result state with ⟨e', state', failure⟩
        cases failure with
        | some message =>
          exact ⟨_, .failed [] (.hook hook) _ (e, state) message rfl .nil htype hmake rfl rfl⟩
        | none =>
          have hfirst : Sweep m result [.hook hook] (e, state) [.hook hook] (e', state') :=
            .call htype hmake .nil
          obtain ⟨made, hmade⟩ := ih e' state'
          exact ⟨_, .after hfirst hmade⟩
      · rw [if_neg fun hfits => htype hfits.2]
        obtain ⟨made, hmade⟩ := ih e state
        exact ⟨made, hmade.pass htype⟩
    · rw [if_neg fun hfits => hphase hfits.1, List.filter_cons_of_neg (by simpa using hphase)]
      exact ih e state

/-- Handling a changed field gives those handlers their turns that are registered for it. -/
theorem swept_handleEach (m : Moment) (result : Option QueryResult) (field : String)
    (change : Change) (list : List (FieldHandler σ)) (e : Entity) (state : σ) :
    ∃ made, Swept m .propertyChanged result
      ((list.filter (·.field = field)).map (Call.handler · change)) (e, state)
      (handleEach m field change list e state) made := by
  induction list generalizing e state with
  | nil => exact ⟨[], .ended .nil rfl rfl⟩
  | cons handler rest ih =>
    rw [handleEach]
    by_cases hfield : handler.field = field
    · rw [List.filter_cons_of_pos (by simpa using hfield), List.map_cons]
      by_cases htype : handler.typeName = e.typeName
      · rw [if_pos ⟨hfield, htype⟩]
        rcases hmake : handler.call m e change state with ⟨e', state', failure⟩
        cases failure with
        | some message =>
          refine ⟨_, .failed [] (.handler handler change) _ (e, state) message rfl .nil htype hmake
            rfl ?_⟩
          rw [Call.describe, hfield]
        | none =>
          have hfirst : Sweep m result [.handler handler change] (e, state)
              [.handler handler change] (e', state') := .call htype hmake .nil
          obtain ⟨made, hmade⟩ := ih e' state'
          exact ⟨_, .after hfirst hmade⟩
      · rw [if_neg fun hfits => htype hfits.2]
        obtain ⟨made, hmade⟩ := ih e state
        exact ⟨made, hmade.pass htype⟩
    · rw [if_neg fun hfits => hfield hfits.1, List.filter_cons_of_neg (by simpa using hfield)]
      exact ih e state

/-! ### Plans -/

/-- A run kept to a plan until the type of the entity was changed, if it was. -/
inductive Followed (m : Moment) (phase : Phase) (result : Option QueryResult) (plan : List (Call σ))
    (x : Entity × σ) (run : HookRun σ) : Prop
  /-- All of the plan has been called and has succeeded, and no other call has been made. -/
  | completed (called : run.called = plan.map Call.handle)
    (succeeded : Succeed m result plan x (run.entity, run.state)) (ok : run.outcome = .ok ())
    (kept : run.entity.typeName = x.1.typeName)
  /-- A call of the plan failed. All in front of it had succeeded, and it was the last one. -/
  | failed (before : List (Call σ)) (call : Call σ) (after : List (Call σ)) (mid : Entity × σ)
    (message : String) (split : plan = before ++ call :: after)
    (succeeded : Succeed m result before x mid)
    (fails : call.make m result mid.1 mid.2 = ⟨run.entity, run.state, some message⟩)
    (called : run.called = (before ++ [call]).map Call.handle)
    (error : run.outcome = .error (.hook phase (call.describe message)))
  /-- A call of the plan put an entity of another type in the place of its own. The plan was kept up
  to this call. -/
  | retyped (before : List (Call σ)) (call : Call σ) (after : List (Call σ)) (mid : Entity × σ)
    (split : plan = before ++ call :: after)
    (succeeded : Succeed m result (before ++ [call]) x mid)
    (other : mid.1.typeName ≠ x.1.typeName)
    (called : (before ++ [call]).map Call.handle <+: run.called)

/-- The calls that were made began as planned, up to one that left an entity of another type. -/
def Departs (m : Moment) (result : Option QueryResult) (plan : List (Call σ)) (x : Entity × σ)
    (made : List (Call σ)) : Prop :=
  ∃ before call after mid, plan = before ++ call :: after ∧
    Succeed m result (before ++ [call]) x mid ∧ mid.1.typeName ≠ x.1.typeName ∧
      before ++ [call] <+: made

theorem Departs.followed {plan : List (Call σ)} (h : Departs m result plan x made)
    (hcalled : made.map Call.handle <+: run.called) (plan' : List (Call σ)) :
    Followed m phase result (plan ++ plan') x run := by
  obtain ⟨before, call, after, mid, rfl, hsucceed, hother, hfront⟩ := h
  refine .retyped before call (after ++ plan') mid ?_ hsucceed hother
    ((hfront.map _).trans hcalled)
  rw [List.append_assoc, List.cons_append]

/-- Calls have their turns as planned for the type that the entity has at first, unless one of them
leaves another type. -/
theorem Sweep.plan (h : Sweep m result calls x made y) :
    made = forType x.1.typeName calls ∧ Succeed m result made x y ∧
        y.1.typeName = x.1.typeName ∨
      Departs m result (forType x.1.typeName calls) x made := by
  induction h with
  | nil => exact .inl ⟨rfl, .nil, rfl⟩
  | pass hne _ ih =>
    rw [forType_cons_of_ne hne]
    exact ih
  | @call call rest made x y e state heq hmake _ ih =>
    rw [forType_cons_of_eq heq]
    by_cases htype : e.typeName = x.1.typeName
    · rw [← htype]
      rcases ih with ⟨rfl, hsucceed, hkept⟩ |
        ⟨before, last, after, mid, hsplit, hsucceed, hother, hfront⟩
      · exact .inl ⟨rfl, .cons hmake hsucceed, hkept⟩
      · exact .inr ⟨call :: before, last, after, mid, congrArg (call :: ·) hsplit,
          .cons hmake hsucceed, htype ▸ hother, List.cons_prefix_cons.mpr ⟨rfl, hfront⟩⟩
    · exact .inr ⟨[], call, _, (e, state), rfl, .cons hmake .nil, htype,
        List.cons_prefix_cons.mpr ⟨rfl, List.nil_prefix⟩⟩

/-- So does a run of calls, up to the first failure. -/
theorem Swept.followed (h : Swept m phase result calls x run made) :
    Followed m phase result (forType x.1.typeName calls) x run := by
  cases h with
  | ended sweep called ok =>
    rcases sweep.plan with ⟨rfl, hsucceed, hkept⟩ | hdeparts
    · exact .completed called hsucceed ok hkept
    · have hcalled : made.map Call.handle <+: run.called := called ▸ List.prefix_rfl
      exact List.append_nil (forType x.1.typeName calls) ▸ hdeparts.followed hcalled []
  | failed front call back mid message split sweep fits fails called error =>
    rw [split, forType_append]
    rcases sweep.plan with ⟨rfl, hsucceed, hkept⟩ | hdeparts
    · rw [forType_cons_of_eq (fits.trans hkept)]
      exact .failed _ call _ mid message rfl hsucceed fails called error
    · refine hdeparts.followed ?_ _
      rw [called]
      exact (List.prefix_append _ _).map _

namespace Followed

variable {plan plan' : List (Call σ)}

/-- A plan has been followed, and the type is still the same: what is planned further is as well. -/
theorem after (h : Succeed m result plan x y) (hkept : y.1.typeName = x.1.typeName)
    (h' : Followed m phase result plan' y run) :
    Followed m phase result (plan ++ plan') x
      { run with called := plan.map Call.handle ++ run.called } := by
  cases h' with
  | completed called succeeded ok kept =>
    refine .completed ?_ (h.append succeeded) ok (kept.trans hkept)
    rw [called, List.map_append]
  | failed before call after mid message split succeeded fails called error =>
    refine .failed (plan ++ before) call after mid message ?_ (h.append succeeded) fails ?_ error
    · rw [split, List.append_assoc]
    · simp only [called, List.map_append, List.append_assoc]
  | retyped before call after mid split succeeded other called =>
    refine .retyped (plan ++ before) call after mid ?_ ?_ (hkept ▸ other) ?_
    · rw [split, List.append_assoc]
    · rw [List.append_assoc]
      exact h.append succeeded
    · rw [List.append_assoc, List.map_append]
      exact (List.prefix_append_right_inj _).mpr called

/-- After a failure it does not matter what is planned further. -/
theorem append_of_ne_ok (h : Followed m phase result plan x run) (hfails : run.outcome ≠ .ok ())
    (plan' : List (Call σ)) : Followed m phase result (plan ++ plan') x run := by
  cases h with
  | completed _ _ ok _ => exact absurd ok hfails
  | failed before call after mid message split succeeded fails called error =>
    refine .failed before call (after ++ plan') mid message ?_ succeeded fails called error
    rw [split, List.append_assoc, List.cons_append]
  | retyped before call after mid split succeeded other called =>
    refine .retyped before call (after ++ plan') mid ?_ succeeded other called
    rw [split, List.append_assoc, List.cons_append]

end Followed

end Hooks

/-- The run calls the given registrations in order, up to the first failure. -/
structure HookRun.Calls (run : HookRun σ) (handles : List HookHandle) : Prop where
  called : run.called <+: handles
  complete : run.outcome = .ok () → run.called = handles

namespace Hooks

variable {hooks : Hooks σ} {typeName : String} {changes : Dict Change} {m : Moment} {phase : Phase}
  {result : Option QueryResult} {calls plan made made' : List (Call σ)} {x y : Entity × σ}
  {run : HookRun σ}

theorem Succeed.typeName_eq (h : Succeed m result calls x y)
    (hkeep : ∀ call ∈ calls, call.KeepsType m result) : y.1.typeName = x.1.typeName := by
  induction h with
  | nil => rfl
  | @cons call rest x y e state hmake _ ih =>
    obtain ⟨hfirst, hrest⟩ := List.forall_mem_cons.mp hkeep
    have htype := hfirst x.1 x.2
    rw [hmake] at htype
    exact (ih hrest).trans htype

/-- Calls that leave the type alone keep to the plan. The type is read again for every registration,
but as long as it is the same, each decision is the one that the plan has taken beforehand. -/
theorem Followed.calls_of_keepsType (h : Followed m phase result plan x run)
    (hkeep : ∀ call ∈ plan, call.KeepsType m result) : run.Calls (plan.map Call.handle) := by
  cases h with
  | completed called _ _ _ => exact ⟨called ▸ List.prefix_rfl, fun _ => called⟩
  | failed before call after mid message split succeeded fails called error =>
    refine ⟨?_, fun hok => nomatch error.symm.trans hok⟩
    rw [called, split, List.append_cons before call after]
    exact (List.prefix_append _ _).map _
  | retyped before call after mid split succeeded other _ =>
    refine absurd (succeeded.typeName_eq fun own hown => hkeep own ?_) other
    rw [split, List.append_cons before call after]
    exact List.mem_append_left _ hown

/-! ### Dispatching -/

/-- One of the calls is of a handler for the field. -/
def Serves (made : List (Call σ)) (field : String) : Prop :=
  ∃ handler change, .handler handler change ∈ made ∧ handler.field = field

section Serves

variable {field : String} {entry : String × Change} {entries : List (String × Change)}

theorem serves_append :
    Serves (made ++ made') field ↔ Serves made field ∨ Serves made' field := by
  simp only [Serves, List.mem_append, or_and_right, exists_or]

/-- The handlers of a field serve it, if there are any, -/
theorem serves_of_sublist_fieldCalls (h : made.Sublist (hooks.fieldCalls entry)) (hne : made ≠ []) :
    Serves made entry.1 := by
  obtain ⟨call, rest, rfl⟩ := List.exists_cons_of_ne_nil hne
  obtain ⟨handler, -, hfield, rfl⟩ := mem_fieldCalls.mp (h.subset List.mem_cons_self)
  exact ⟨handler, _, List.mem_cons_self, hfield⟩

/-- and no other field. -/
theorem eq_of_serves_fieldCalls (h : made.Sublist (hooks.fieldCalls entry))
    (hserves : Serves made field) : field = entry.1 := by
  obtain ⟨handler, change, hmem, rfl⟩ := hserves
  obtain ⟨_, -, hfield, heq⟩ := mem_fieldCalls.mp (h.subset hmem)
  obtain ⟨rfl, -⟩ := Call.handler.inj heq
  exact hfield

theorem mem_fields_of_serves (h : made.Sublist (hooks.handlerCalls entries))
    (hserves : Serves made field) : field ∈ entries.map Prod.fst := by
  obtain ⟨handler, change, hmem, rfl⟩ := hserves
  exact List.mem_map_of_mem (handler_mem_handlerCalls.mp (h.subset hmem)).2

/-- The plan serves a changed field if its type has a handler for it. -/
theorem serves_forType_iff (hfield : (changes.get? field).isSome) :
    Serves (forType typeName (hooks.handlerCalls changes.toList)) field ↔
      ¬hooks.Unhandled typeName field := by
  obtain ⟨change, hget⟩ := Option.isSome_iff_exists.mp hfield
  have hentry := Dict.get?_eq_some_iff.mp hget
  constructor
  · rintro ⟨handler, _, hmem, hserved⟩ hunhandled
    obtain ⟨hmem, htype⟩ := mem_forType.mp hmem
    exact hunhandled handler (handler_mem_handlerCalls.mp hmem).1 ⟨hserved, htype⟩
  · intro hhandled
    by_contra hnot
    refine hhandled fun handler hhandler ⟨hserved, htype⟩ => hnot ⟨handler, change, ?_, hserved⟩
    exact mem_forType.mpr ⟨handler_mem_handlerCalls.mpr ⟨hhandler, hserved ▸ hentry⟩, htype⟩

/-- The hooks for changes are planned if the handlers that are planned leave a field out. -/
theorem callsFor_eq_of_serves (h : ∀ entry ∈ changes.toList,
    Serves (forType typeName (hooks.handlerCalls changes.toList)) entry.1) :
    hooks.callsFor typeName changes = forType typeName (hooks.handlerCalls changes.toList) := by
  rw [callsFor, if_neg, List.append_nil]
  rw [any_isEmpty_iff]
  rintro ⟨field, hfield, hunhandled⟩
  obtain ⟨change, hget⟩ := Option.isSome_iff_exists.mp hfield
  exact (serves_forType_iff hfield).mp (h _ (Dict.get?_eq_some_iff.mp hget)) hunhandled

theorem callsFor_eq_of_not_serves (h : ∃ entry ∈ changes.toList,
    ¬Serves (forType typeName (hooks.handlerCalls changes.toList)) entry.1) :
    hooks.callsFor typeName changes = forType typeName (hooks.handlerCalls changes.toList) ++
      forType typeName (hooks.hookCalls .propertyChanged) := by
  obtain ⟨entry, hentry, hnot⟩ := h
  have hfield : (changes.get? entry.1).isSome :=
    Option.isSome_of_mem (Dict.get?_eq_some_iff.mpr hentry)
  rw [callsFor, if_pos]
  exact any_isEmpty_iff.mpr
    ⟨entry.1, hfield, not_not.mp fun hhandled => hnot ((serves_forType_iff hfield).mpr hhandled)⟩

end Serves

/-- What a dispatch of changed fields did, turn by turn. The flag tells of a field before these that
no handler was called for. -/
inductive Course (hooks : Hooks σ) (m : Moment) (result : Option QueryResult)
    (entries : List (String × Change)) (unhandled : Bool) (x : Entity × σ) (run : HookRun σ) : Prop
  /-- The handlers of the fields had their turns. One of them failed, or every field had one called,
  and that was all. -/
  | handled (made : List (Call σ))
    (swept : Swept m .propertyChanged result (hooks.handlerCalls entries) x run made)
    (served : run.outcome = .ok () → unhandled = false ∧ ∀ entry ∈ entries, Serves made entry.1)
  /-- Some field had none called, and then the hooks for changes had their turns. -/
  | reported (made later : List (Call σ)) (mid : Entity × σ) (second : HookRun σ)
    (sweep : Sweep m result (hooks.handlerCalls entries) x made mid)
    (unserved : unhandled = true ∨ ∃ entry ∈ entries, ¬Serves made entry.1)
    (swept : Swept m .propertyChanged result (hooks.hookCalls .propertyChanged) mid second later)
    (onward : run = { second with called := made.map Call.handle ++ second.called })

namespace Course

variable {entry : String × Change} {rest : List (String × Change)} {unhandled : Bool}
  {own : List (Call σ)}

/-- A handler of the first field failed. -/
theorem of_error (h : Swept m .propertyChanged result (hooks.fieldCalls entry) x run own)
    (hfails : run.outcome ≠ .ok ()) : hooks.Course m result (entry :: rest) unhandled x run := by
  refine .handled own ?_ fun hok => absurd hok hfails
  rw [handlerCalls, List.flatMap_cons]
  exact h.append_of_ne_ok hfails _

/-- The handlers of the first field have had their turns, and the dispatch goes on. -/
theorem cons (h : Sweep m result (hooks.fieldCalls entry) x own y)
    (hfresh : entry.1 ∉ rest.map Prod.fst)
    (hrest : hooks.Course m result rest (unhandled || own.isEmpty) y run) :
    hooks.Course m result (entry :: rest) unhandled x
      { run with called := own.map Call.handle ++ run.called } := by
  have hsplit : hooks.handlerCalls (entry :: rest) =
      hooks.fieldCalls entry ++ hooks.handlerCalls rest := List.flatMap_cons
  cases hrest with
  | handled made swept served =>
    refine .handled (own ++ made) (hsplit ▸ swept.after h) fun hok => ?_
    obtain ⟨hflag, hserved⟩ := served hok
    obtain ⟨hflag, hne⟩ := Bool.or_eq_false_iff.mp hflag
    refine ⟨hflag, List.forall_mem_cons.mpr ⟨?_, fun other hother => ?_⟩⟩
    · exact serves_append.mpr (.inl (serves_of_sublist_fieldCalls h.sublist (by simpa using hne)))
    · exact serves_append.mpr (.inr (hserved other hother))
  | reported made later mid second sweep unserved swept onward =>
    refine .reported (own ++ made) later mid second (hsplit ▸ h.append sweep) ?_ swept ?_
    · rcases unserved with hflag | ⟨other, hother, hnot⟩
      · rcases Bool.or_eq_true_iff.mp hflag with hflag | hnone
        · exact .inl hflag
        · -- the handlers behind are for other fields
          refine .inr ⟨entry, List.mem_cons_self, fun hserves => hfresh ?_⟩
          rw [List.isEmpty_iff.mp hnone, List.nil_append] at hserves
          exact mem_fields_of_serves sweep.sublist hserves
      · refine .inr ⟨other, List.mem_cons_of_mem _ hother, fun hserves => ?_⟩
        rcases serves_append.mp hserves with hserves | hserves
        · exact hfresh (eq_of_serves_fieldCalls h.sublist hserves ▸ List.mem_map_of_mem hother)
        · exact hnot hserves
    · rw [onward, List.map_append, List.append_assoc]

end Course

/-- Dispatching fields gives their handlers their turns, and then the hooks for changes, if there
are fields that no handler was called for. -/
theorem course_dispatchEach (hooks : Hooks σ) (m : Moment) (result : Option QueryResult)
    {entries : List (String × Change)} (hnodup : (entries.map Prod.fst).Nodup) (unhandled : Bool)
    (e : Entity) (state : σ) : hooks.Course m result entries unhandled (e, state)
      (hooks.dispatchEach m result entries unhandled e state) := by
  induction entries generalizing unhandled e state with
  | nil =>
    rw [dispatchEach]
    cases unhandled with
    | false => exact .handled [] (.ended .nil rfl rfl) fun _ => ⟨rfl, List.forall_mem_nil _⟩
    | true =>
      obtain ⟨later, hlater⟩ := swept_runEach m .propertyChanged result hooks.hooks e state
      exact .reported [] later (e, state) _ .nil (.inl rfl) hlater rfl
  | cons entry rest ih =>
    obtain ⟨hfresh, hnodup⟩ := List.nodup_cons.mp hnodup
    obtain ⟨own, hown⟩ := swept_handleEach m result entry.1 entry.2 hooks.handlers e state
    rw [dispatchEach]
    generalize handleEach m entry.1 entry.2 hooks.handlers e state = handled at hown
    cases houtcome : handled.outcome with
    | error err => exact .of_error hown (by simp [houtcome])
    | ok u =>
      cases hown with
      | failed _ _ _ _ _ _ _ _ _ _ error => simp [houtcome] at error
      | ended sweep called _ =>
        rw [called, List.isEmpty_map]
        exact .cons sweep hfresh (ih hnodup _ handled.entity handled.state)

namespace Course

/-- The registrations that are called have had their turns in this order. -/
theorem called_sublist (h : hooks.Course m result entries unhandled x run) :
    run.called.Sublist
      ((hooks.handlerCalls entries ++ hooks.hookCalls .propertyChanged).map Call.handle) := by
  rw [List.map_append]
  cases h with
  | handled made swept _ =>
    rw [swept.called_eq]
    exact (swept.sublist.map _).trans (List.sublist_append_left ..)
  | reported made later mid second sweep _ swept onward =>
    rw [onward, swept.called_eq]
    exact (sweep.sublist.map _).append (swept.sublist.map _)

/-- A dispatch keeps to the plan for the type that the entity has at first. -/
theorem followed (h : hooks.Course m result changes.toList false x run) :
    Followed m .propertyChanged result (hooks.callsFor x.1.typeName changes) x run := by
  cases h with
  | handled made swept served =>
    by_cases hok : run.outcome = .ok ()
    · cases swept with
      | failed _ _ _ _ _ _ _ _ _ _ error => exact nomatch error.symm.trans hok
      | ended sweep called _ =>
        rcases sweep.plan with ⟨rfl, hsucceed, hkept⟩ | hdeparts
        · rw [callsFor_eq_of_serves (served hok).2]
          exact .completed called hsucceed hok hkept
        · exact hdeparts.followed (called ▸ List.prefix_rfl) _
    · exact swept.followed.append_of_ne_ok hok _
  | reported made later mid second sweep unserved swept onward =>
    rcases sweep.plan with ⟨rfl, hsucceed, hkept⟩ | hdeparts
    · have hsecond := swept.followed
      rw [hkept] at hsecond
      rw [callsFor_eq_of_not_serves (unserved.resolve_left Bool.false_ne_true), onward]
      exact .after hsucceed hkept hsecond
    · refine hdeparts.followed ?_ _
      rw [onward]
      exact List.prefix_append ..

end Course

/-- Registrations that do to their entities what entities offer leave the type alone. -/
theorem Restrained.keepsType (h : hooks.Restrained) :
    ∀ call ∈ hooks.callsFor typeName changes, call.KeepsType m result := by
  intro call hcall e state
  cases call with
  | handler entry change =>
    exact (h.handler entry (handler_mem_callsFor.mp hcall).1 m e change state).typeName
  | hook entry => exact (h.hook entry (hook_mem_callsFor.mp hcall).1 m e result state).typeName

/-- What is known of a dispatch when it has ended. -/
structure Dispatched (hooks : Hooks σ) (m : Moment) (result : Option QueryResult) (e : Entity)
    (changes : Dict Change) (state : σ) (run : HookRun σ) : Prop where
  /-- The handlers of the type are planned for the fields that have changed, with their changes. -/
  handler : ∀ handler change, .handler handler change ∈ hooks.callsFor e.typeName changes ↔
    handler ∈ hooks.handlers ∧ handler.typeName = e.typeName ∧
      changes.get? handler.field = some change
  /-- The hooks for changes are planned if some changed field has no handler. -/
  hook : ∀ hook, .hook hook ∈ hooks.callsFor e.typeName changes ↔
    hook ∈ hooks.hooks ∧ hook.phase = .propertyChanged ∧ hook.typeName = e.typeName ∧
      ∃ field, (changes.get? field).isSome ∧ hooks.Unhandled e.typeName field
  /-- The order of the plan is that of the turns. -/
  ordered : (hooks.callsFor e.typeName changes).Sublist
    (hooks.handlerCalls changes.toList ++ hooks.hookCalls .propertyChanged)
  /-- The plan was followed, up to the first failure and as long as no call left an entity of
  another type: it does not matter what the calls did otherwise. -/
  followed : Followed m .propertyChanged result (hooks.callsFor e.typeName changes) (e, state) run
  /-- Registrations that do to their entities what entities offer are called as planned. -/
  edits : hooks.Restrained → run.Calls ((hooks.callsFor e.typeName changes).map Call.handle)
  /-- Whatever the calls left behind, the turns went on from there. -/
  course : hooks.Course m result changes.toList false (e, state) run
  /-- Nothing is planned twice, nor called twice. -/
  once : hooks.handles.Nodup →
    ((hooks.callsFor e.typeName changes).map Call.handle).Nodup ∧ run.called.Nodup

/-- **Dispatching changes.** Whatever hooks and handlers are registered and whatever they do, the
handlers of the changed fields are called in the order of the fields, and the hooks for changes
follow if no handler was called for a field. Which calls there are is settled beforehand up to a
call that puts an entity of another type in the place of its own. -/
theorem dispatched_dispatch (hooks : Hooks σ) (m : Moment) (result : Option QueryResult) (e : Entity)
    (changes : Dict Change) (state : σ) :
    hooks.Dispatched m result e changes state (hooks.dispatch m e changes result state) := by
  have hcourse := course_dispatchEach hooks m result changes.nodup_names false e state
  constructor
  case handler => exact fun _ _ => handler_mem_callsFor
  case hook => exact fun _ => hook_mem_callsFor
  case ordered => exact callsFor_sublist
  case followed => exact hcourse.followed
  case edits => exact fun hrestrained => hcourse.followed.calls_of_keepsType hrestrained.keepsType
  case course => exact hcourse
  case once =>
    intro hnodup
    have hall := nodup_handles hnodup changes
    exact ⟨(callsFor_sublist.map _).nodup hall, hcourse.called_sublist.nodup hall⟩

-- nobody handles the age; a handler marks the entity, a hook finds the mark, and the next one fails
example :
    let hooks : Hooks (List String) := {
      handlers := [
        ⟨⟨0⟩, "Person", "name", fun _ e change notes =>
          ⟨(e.assign "seen" (.bool true)).toOption.getD e,
            notes ++ [change.after.string?.getD ""], none⟩⟩,
        ⟨⟨1⟩, "Animal", "name", fun _ e _ notes => ⟨e, notes ++ ["animal"], none⟩⟩]
      hooks := [
        ⟨⟨2⟩, "Person", .propertyChanged, fun m e _ notes =>
          ⟨e, notes ++ [if (e.get? m "seen").isSome then "seen" else "unseen"], none⟩⟩,
        ⟨⟨3⟩, "Person", .propertyChanged, fun _ e _ notes => ⟨e, notes, some "full"⟩⟩,
        ⟨⟨4⟩, "Person", .propertyChanged, fun _ e _ notes => ⟨e, notes ++ ["late"], none⟩⟩] }
    let run := hooks.dispatch .epoch (.node "Person" ["Person"] (.empty true))
      (.ofList [("name", ⟨.null, .string "Ann"⟩), ("age", ⟨.integer 1, .integer 2⟩)]) none []
    run.state = ["Ann", "seen"] ∧ run.called = [⟨0⟩, ⟨2⟩, ⟨3⟩] ∧
      run.outcome = .error (.hook .propertyChanged "full") := by
  decide +kernel

-- a handler puts an animal in the place of the person: the rest of the turns are for animals
example :
    let hooks : Hooks Unit := {
      handlers := [
        ⟨⟨0⟩, "Person", "age", fun _ _ _ app => ⟨.node "Animal" [] (.empty true), app, none⟩⟩,
        ⟨⟨1⟩, "Person", "age", fun _ e _ app => ⟨e, app, none⟩⟩,
        ⟨⟨2⟩, "Animal", "age", fun _ e _ app => ⟨e, app, none⟩⟩,
        ⟨⟨3⟩, "Person", "name", fun _ e _ app => ⟨e, app, none⟩⟩]
      hooks := [
        ⟨⟨4⟩, "Person", .propertyChanged, fun _ e _ app => ⟨e, app, none⟩⟩,
        ⟨⟨5⟩, "Animal", .propertyChanged, fun _ e _ app => ⟨e, app, none⟩⟩] }
    (hooks.dispatch .epoch (.node "Person" ["Person"] (.empty true))
      (.ofList [("name", ⟨.null, .string "Ann"⟩), ("age", ⟨.integer 1, .integer 2⟩)]) none
        ()).called = [⟨0⟩, ⟨2⟩, ⟨5⟩] := by
  decide +kernel

end Hooks

end GraphMapping
