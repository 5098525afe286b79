import GraphMapping.Proofs.Lifecycle.Dispatch

/-!
# Registering and taking back

Hooks and handlers stand in two lists, but they are numbered together and taken back in one way. So
the registrations are one list, of which the two are the parts: what has been registered and not
been taken back since, in the order of registration. This list can be read off the history of the
application's commands and the answers to them, and whatever the registrations are asked is answered
from it.

A number is handed out once. A handle that comes from elsewhere may have a number that is handed out
later only; taking it back before this does nothing.

## Main definitions

* `Hooks.Command`, `Hooks.Record`: what an application asks, and what it was answered.
* `Hooks.serve`: answer commands one after the other.
* `Hooks.Stands`, `Hooks.live`: what a history has registered and not taken back since.
* `Hooks.Registry`: registrations are what a history leaves.
* `Hooks.Ran`: a run called the hooks for the phase and the type.
* `Hooks.Orderly`: registrations answer from what a history leaves.

## Main results

* `Hooks.Registry.answer`, `Hooks.Registry.serve`: one command, and any number of them.
* `Hooks.ran_runEach`, `Hooks.called_runEach_sublist`: what a run of hooks calls, and in what order.
* `Hooks.orderly_serve`: the registrations after any commands.
-/

namespace GraphMapping

variable {σ : Type}

namespace Hooks

/-! ### Histories -/

/-- What an application asks of its registrations. -/
inductive Command (σ : Type) where
  | register (typeName : String) (phase : Phase) (call : Hook σ)
  | onChanged (typeName field : String) (call : Handler σ)
  | unregister (handle : HookHandle)

/-- A hook or a handler, with the handle that was returned for it. -/
inductive Registration (σ : Type) where
  | hook (entry : PhaseHook σ)
  | handler (entry : FieldHandler σ)

namespace Registration

def handle : Registration σ → HookHandle
  | hook entry => entry.handle
  | handler entry => entry.handle

def hook? : Registration σ → Option (PhaseHook σ)
  | hook entry => some entry
  | handler _ => none

def handler? : Registration σ → Option (FieldHandler σ)
  | hook _ => none
  | handler entry => some entry

end Registration

/-- A command with its answer. -/
inductive Record (σ : Type) where
  | registered (entry : Registration σ)
  /-- The flag says whether there was something to take back. -/
  | unregistered (handle : HookHandle) (found : Bool)

/-- Answer a command. -/
def answer (hooks : Hooks σ) : Command σ → Record σ × Hooks σ
  | .register typeName phase call =>
    let (handle, hooks) := hooks.register typeName phase call
    (.registered (.hook ⟨handle, typeName, phase, call⟩), hooks)
  | .onChanged typeName field call =>
    let (handle, hooks) := hooks.onChanged typeName field call
    (.registered (.handler ⟨handle, typeName, field, call⟩), hooks)
  | .unregister handle =>
    let (found, hooks) := hooks.unregister handle
    (.unregistered handle found, hooks)

/-- Answer commands one after the other. -/
def serve (hooks : Hooks σ) : List (Command σ) → List (Record σ) × Hooks σ
  | [] => ([], hooks)
  | command :: rest =>
    let (record, hooks) := hooks.answer command
    let (later, hooks) := hooks.serve rest
    (record :: later, hooks)

/-- All handles that were returned, the oldest first. -/
def issued (history : List (Record σ)) : List HookHandle :=
  history.filterMap fun
    | .registered entry => some entry.handle
    | .unregistered .. => none

/-- The registration was made, and its handle has not been taken back since. -/
def Stands (history : List (Record σ)) (entry : Registration σ) : Prop :=
  ∃ before after, history = before ++ .registered entry :: after ∧
    ∀ found, .unregistered entry.handle found ∉ after

/-- The command took the handle back, if it was there. -/
def Record.takesBack (handle : HookHandle) : Record σ → Bool
  | registered _ => false
  | unregistered other _ => other = handle

/-- What has been registered and not been taken back since, in the order of registration. -/
def live : List (Record σ) → List (Registration σ)
  | [] => []
  | .registered entry :: later =>
    if later.any (Record.takesBack entry.handle) then live later else entry :: live later
  | .unregistered .. :: later => live later

section Live

variable {history : List (Record σ)} {entry : Registration σ}

theorem any_takesBack {handle : HookHandle} : history.any (Record.takesBack handle) = true ↔
    ∃ found, .unregistered handle found ∈ history := by
  rw [List.any_eq_true]
  constructor
  · rintro ⟨record, hmem, htakes⟩
    cases record with
    | registered => cases htakes
    | unregistered other found =>
      obtain rfl := of_decide_eq_true htakes
      exact ⟨found, hmem⟩
  · rintro ⟨found, hmem⟩
    exact ⟨_, hmem, decide_eq_true rfl⟩

theorem mem_live_iff : entry ∈ live history ↔ Stands history entry := by
  constructor
  · intro hmem
    induction history with
    | nil => cases hmem
    | cons record later ih =>
      -- whatever stands later on stands, and the record in front may add to it
      have hlater : entry ∈ live later → Stands (record :: later) entry := by
        intro hmem
        obtain ⟨before, after, rfl, hnot⟩ := ih hmem
        exact ⟨record :: before, after, rfl, hnot⟩
      cases record with
      | unregistered => exact hlater hmem
      | registered first =>
        rw [live] at hmem
        split at hmem
        · exact hlater hmem
        · rename_i hany
          rcases List.mem_cons.mp hmem with rfl | hmem
          · exact ⟨[], later, rfl, fun found hfound => hany (any_takesBack.mpr ⟨found, hfound⟩)⟩
          · exact hlater hmem
  · rintro ⟨before, after, rfl, hnot⟩
    induction before with
    | nil =>
      have hany : ¬after.any (Record.takesBack entry.handle) = true := fun hany => by
        obtain ⟨found, hfound⟩ := any_takesBack.mp hany
        exact hnot found hfound
      rw [List.nil_append, live, if_neg hany]
      exact List.mem_cons_self
    | cons record before ih =>
      cases record with
      | unregistered => exact ih
      | registered first =>
        rw [List.cons_append, live]
        split
        · exact ih
        · exact List.mem_cons_of_mem _ ih

theorem live_append_registered :
    live (history ++ [.registered entry]) = live history ++ [entry] := by
  induction history with
  | nil => rfl
  | cons record later ih =>
    cases record with
    | unregistered => exact ih
    | registered first =>
      have hany : (later ++ [Record.registered entry]).any (Record.takesBack first.handle) =
          later.any (Record.takesBack first.handle) := by
        rw [List.any_append]
        exact Bool.or_false _
      rw [List.cons_append, live, live, hany, ih]
      split <;> rfl

theorem live_append_unregistered {handle : HookHandle} {found : Bool} :
    live (history ++ [.unregistered handle found]) =
      (live history).filter (·.handle ≠ handle) := by
  induction history with
  | nil => rfl
  | cons record later ih =>
    cases record with
    | unregistered => exact ih
    | registered first =>
      have hany :
          (later ++ [Record.unregistered handle found]).any (Record.takesBack first.handle) =
            (later.any (Record.takesBack first.handle) || decide (handle = first.handle)) := by
        rw [List.any_append]
        exact congrArg _ (Bool.or_false _)
      rw [List.cons_append, live, live, hany, ih]
      by_cases hsame : handle = first.handle
      · rw [decide_eq_true hsame, Bool.or_true, if_pos rfl]
        split
        · rfl
        · rw [List.filter_cons_of_neg (by simp [hsame])]
      · rw [decide_eq_false hsame, Bool.or_false]
        split
        · rfl
        · rw [List.filter_cons_of_pos (by simpa using Ne.symm hsame)]

theorem issued_append_registered :
    issued (history ++ [.registered entry]) = issued history ++ [entry.handle] :=
  List.filterMap_append

theorem issued_append_unregistered {handle : HookHandle} {found : Bool} :
    issued (history ++ [.unregistered handle found]) = issued history := by
  rw [issued, List.filterMap_append]
  exact List.append_nil _

/-- What stands was registered in this order. -/
theorem map_handle_live_sublist :
    ((live history).map Registration.handle).Sublist (issued history) := by
  induction history with
  | nil => exact .slnil
  | cons record later ih =>
    cases record with
    | unregistered => exact ih
    | registered first =>
      rw [live]
      split
      · exact ih.cons _
      · exact ih.cons_cons _

end Live

/-! ### The two lists -/

/-- The hooks and the handlers are those of one list of registrations. -/
structure Lists (hooks : Hooks σ) (standing : List (Registration σ)) : Prop where
  hooks_eq : hooks.hooks = standing.filterMap Registration.hook?
  handlers_eq : hooks.handlers = standing.filterMap Registration.handler?

namespace Lists

variable {hooks : Hooks σ} {standing : List (Registration σ)}

theorem size_eq (h : hooks.Lists standing) : hooks.size = standing.length := by
  rw [size, h.hooks_eq, h.handlers_eq]
  clear h
  induction standing with
  | nil => rfl
  | cons entry rest ih =>
    cases entry with
    | hook entry =>
      rw [List.filterMap_cons, List.filterMap_cons, List.length_cons, ← ih]
      exact Nat.add_right_comm ..
    | handler entry =>
      rw [List.filterMap_cons, List.filterMap_cons, List.length_cons, ← ih]
      rfl

theorem map_handle_hooks_sublist :
    ((standing.filterMap Registration.hook?).map (·.handle)).Sublist
      (standing.map Registration.handle) := by
  induction standing with
  | nil => exact .slnil
  | cons entry rest ih =>
    cases entry with
    | hook entry => exact ih.cons_cons _
    | handler entry => exact ih.cons _

theorem unregister (h : hooks.Lists standing) (handle : HookHandle) :
    (hooks.unregister handle).2.Lists (standing.filter (·.handle ≠ handle)) := by
  constructor
  · rw [List.filterMap_filter]
    change hooks.hooks.filter (·.handle ≠ handle) = _
    rw [h.hooks_eq, List.filter_filterMap]
    refine congrArg (List.filterMap · standing) (funext fun entry => ?_)
    cases entry with
    | hook entry => exact Option.filter_some
    | handler entry => exact (ite_self none).symm
  · rw [List.filterMap_filter]
    change hooks.handlers.filter (·.handle ≠ handle) = _
    rw [h.handlers_eq, List.filter_filterMap]
    refine congrArg (List.filterMap · standing) (funext fun entry => ?_)
    cases entry with
    | hook entry => exact (ite_self none).symm
    | handler entry => exact Option.filter_some

/-- Whether something was taken back shows in the number of registrations. -/
theorem found_unregister_iff (h : hooks.Lists standing) (handle : HookHandle) :
    (hooks.unregister handle).1 = true ↔ ∃ entry ∈ standing, entry.handle = handle := by
  have hfound : (hooks.unregister handle).1 =
      decide ((hooks.unregister handle).2.size ≠ hooks.size) := rfl
  rw [hfound, decide_eq_true_iff, (h.unregister handle).size_eq, h.size_eq, Ne,
    List.length_filter_eq_length_iff]
  simp

end Lists

/-! ### Registrations after a history -/

/-- The registrations are what a history of commands leaves. -/
structure Registry (hooks : Hooks σ) (history : List (Record σ)) : Prop where
  /-- Handles are numbered in the order in which they were returned. -/
  numbered : issued history = (List.range hooks.next).map HookHandle.mk
  lists : hooks.Lists (live history)

namespace Registry

variable {hooks : Hooks σ} {history : List (Record σ)}

theorem empty : (Hooks.empty : Hooks σ).Registry [] := ⟨rfl, rfl, rfl⟩

/-- A registration gets the next number, and numbers are never given back. This is why a handle that
has been taken back cannot come to mean a later registration. -/
theorem numbered_registered (h : hooks.Registry history) {entry : Registration σ}
    (hentry : entry.handle = ⟨hooks.next⟩) : issued (history ++ [.registered entry]) =
      (List.range (hooks.next + 1)).map HookHandle.mk := by
  rw [issued_append_registered, h.numbered, hentry, List.range_succ, List.map_append]
  rfl

theorem register (h : hooks.Registry history) (typeName : String) (phase : Phase) (call : Hook σ) :
    (hooks.register typeName phase call).2.Registry
      (history ++ [.registered (.hook ⟨⟨hooks.next⟩, typeName, phase, call⟩)]) := by
  refine ⟨?_, ?_, ?_⟩
  · exact h.numbered_registered rfl
  · rw [live_append_registered, List.filterMap_append, ← h.lists.hooks_eq]
    rfl
  · rw [live_append_registered, List.filterMap_append, ← h.lists.handlers_eq]
    exact (List.append_nil _).symm

theorem onChanged (h : hooks.Registry history) (typeName field : String) (call : Handler σ) :
    (hooks.onChanged typeName field call).2.Registry
      (history ++ [.registered (.handler ⟨⟨hooks.next⟩, typeName, field, call⟩)]) := by
  refine ⟨?_, ?_, ?_⟩
  · exact h.numbered_registered rfl
  · rw [live_append_registered, List.filterMap_append, ← h.lists.hooks_eq]
    exact (List.append_nil _).symm
  · rw [live_append_registered, List.filterMap_append, ← h.lists.handlers_eq]
    rfl

theorem unregister (h : hooks.Registry history) (handle : HookHandle) :
    (hooks.unregister handle).2.Registry
      (history ++ [.unregistered handle (hooks.unregister handle).1]) := by
  constructor
  · exact issued_append_unregistered.trans h.numbered
  · rw [live_append_unregistered]
    exact h.lists.unregister handle

theorem answer (h : hooks.Registry history) (command : Command σ) :
    (hooks.answer command).2.Registry (history ++ [(hooks.answer command).1]) := by
  cases command with
  | register typeName phase call => exact h.register typeName phase call
  | onChanged typeName field call => exact h.onChanged typeName field call
  | unregister handle => exact h.unregister handle

theorem serve (h : hooks.Registry history) (commands : List (Command σ)) :
    (hooks.serve commands).2.Registry (history ++ (hooks.serve commands).1) := by
  induction commands generalizing hooks history with
  | nil =>
    rw [Hooks.serve, List.append_nil]
    exact h
  | cons command rest ih =>
    have hrest := ih (h.answer command)
    rwa [List.append_assoc, List.singleton_append] at hrest

theorem nodup_issued (h : hooks.Registry history) : (issued history).Nodup := by
  rw [h.numbered]
  exact List.nodup_range.map fun _ _ heq => congrArg HookHandle.number heq

theorem nodup_live (h : hooks.Registry history) :
    ((live history).map Registration.handle).Nodup :=
  map_handle_live_sublist.nodup h.nodup_issued

/-- Taking a registration back leaves the others, in their order. -/
theorem lists_unregister (h : hooks.Registry history) {front back : List (Registration σ)}
    {entry : Registration σ} (hlive : live history = front ++ entry :: back) :
    (hooks.unregister entry.handle).2.Lists (front ++ back) := by
  have hnodup := h.nodup_live
  rw [hlive, List.map_append, List.map_cons, List.nodup_middle, List.nodup_cons,
    ← List.map_append] at hnodup
  have hothers : (front ++ back).filter (·.handle ≠ entry.handle) = front ++ back :=
    List.filter_eq_self.mpr fun other hother => decide_eq_true fun heq =>
      hnodup.1 (heq ▸ List.mem_map_of_mem hother)
  have hlists := h.lists.unregister entry.handle
  rwa [hlive, List.filter_append, List.filter_cons_of_neg (by simp), ← List.filter_append,
    hothers] at hlists

theorem unregister_of_not_mem (h : hooks.Registry history) {handle : HookHandle}
    (hnot : ∀ entry ∈ live history, entry.handle ≠ handle) :
    (hooks.unregister handle).2 = hooks := by
  have hall : (live history).filter (·.handle ≠ handle) = live history :=
    List.filter_eq_self.mpr fun entry hentry => decide_eq_true (hnot entry hentry)
  have hlists := h.lists.unregister handle
  rw [hall] at hlists
  have hhooks : (hooks.unregister handle).2.hooks = hooks.hooks :=
    hlists.hooks_eq.trans h.lists.hooks_eq.symm
  have hhandlers : (hooks.unregister handle).2.handlers = hooks.handlers :=
    hlists.handlers_eq.trans h.lists.handlers_eq.symm
  calc (hooks.unregister handle).2
      = ⟨hooks.next, (hooks.unregister handle).2.hooks, (hooks.unregister handle).2.handlers⟩ := rfl
    _ = hooks := by rw [hhooks, hhandlers]

end Registry

/-! ### Runs -/

/-- The hooks of a list for the phase and the type. -/
def due (phase : Phase) (typeName : String) (list : List (PhaseHook σ)) : List (PhaseHook σ) :=
  list.filter fun hook => hook.phase = phase ∧ hook.typeName = typeName

section

variable {phase : Phase} {typeName : String} {hook : PhaseHook σ}

theorem due_cons_of_fits (h : hook.phase = phase ∧ hook.typeName = typeName)
    (list : List (PhaseHook σ)) :
    due phase typeName (hook :: list) = hook :: due phase typeName list :=
  List.filter_cons_of_pos (by simpa using h)

theorem due_cons_of_not_fits (h : ¬(hook.phase = phase ∧ hook.typeName = typeName))
    (list : List (PhaseHook σ)) : due phase typeName (hook :: list) = due phase typeName list :=
  List.filter_cons_of_neg (by simpa using h)

end

/-- A run called the hooks of the list that are registered for the phase and for the type of the
entity. -/
inductive Ran (m : Moment) (phase : Phase) (result : Option QueryResult) (list : List (PhaseHook σ))
    (e : Entity) (state : σ) (run : HookRun σ) : Prop
  /-- They have been called, each once and in order, and have succeeded. -/
  | completed
    (called : run.called = (due phase e.typeName list).map (·.handle))
    (succeeded : Succeed m result ((due phase e.typeName list).map .hook) (e, state)
      (run.entity, run.state))
    (ok : run.outcome = .ok ())
  /-- One of them failed; it was the last that was called. -/
  | failed (before : List (PhaseHook σ)) (hook : PhaseHook σ) (after : List (PhaseHook σ))
    (mid : Entity × σ) (message : String)
    (split : due phase e.typeName list = before ++ hook :: after)
    (succeeded : Succeed m result (before.map .hook) (e, state) mid)
    (fails : hook.call m mid.1 result mid.2 = ⟨run.entity, run.state, some message⟩)
    (called : run.called = (before ++ [hook]).map (·.handle))
    (error : run.outcome = .error (.hook phase message))
  /-- One of them put an entity of another type in the place of its own. From there on the hooks
  behind it have been run for that one. -/
  | retyped (front : List (PhaseHook σ)) (hook : PhaseHook σ) (back : List (PhaseHook σ))
    (mid : Entity × σ) (split : list = front ++ hook :: back)
    (fits : hook.phase = phase ∧ hook.typeName = e.typeName)
    (succeeded : Succeed m result ((due phase e.typeName front ++ [hook]).map .hook) (e, state) mid)
    (other : mid.1.typeName ≠ e.typeName)
    (onward : run =
      let later := runEach m phase result back mid.1 mid.2
      { later with
        called := (due phase e.typeName front ++ [hook]).map (·.handle) ++ later.called })

namespace Ran

variable {m : Moment} {phase : Phase} {result : Option QueryResult} {hook : PhaseHook σ}
  {rest : List (PhaseHook σ)} {e e' : Entity} {state state' : σ} {run : HookRun σ}

theorem skip (hfits : ¬(hook.phase = phase ∧ hook.typeName = e.typeName))
    (h : Ran m phase result rest e state run) : Ran m phase result (hook :: rest) e state run := by
  have hdue := due_cons_of_not_fits hfits
  cases h with
  | completed called succeeded ok =>
    rw [← hdue] at called succeeded
    exact .completed called succeeded ok
  | failed before last after mid message split succeeded fails called error =>
    exact .failed before last after mid message ((hdue rest).trans split) succeeded fails called
      error
  | retyped front last back mid split fits succeeded other onward =>
    rw [← hdue] at succeeded onward
    exact .retyped (hook :: front) last back mid (congrArg (hook :: ·) split) fits succeeded other
      onward

/-- A hook succeeds on an entity whose type it leaves alone, and the run goes on. -/
theorem cons (hfits : hook.phase = phase ∧ hook.typeName = e.typeName)
    (hcall : hook.call m e result state = ⟨e', state', none⟩) (htype : e'.typeName = e.typeName)
    (h : Ran m phase result rest e' state' run) :
    Ran m phase result (hook :: rest) e state { run with called := hook.handle :: run.called } := by
  have hdue := due_cons_of_fits hfits
  have hsucceed : ∀ list y, Succeed m result (List.map Call.hook list) (e', state') y →
      Succeed m result ((hook :: list).map .hook) (e, state) y := fun _ _ => .cons hcall
  cases h with
  | completed called succeeded ok =>
    rw [htype] at called succeeded
    refine .completed ?_ ?_ ok <;> rw [hdue]
    · exact congrArg (hook.handle :: ·) called
    · exact hsucceed _ _ succeeded
  | failed before last after mid message split succeeded fails called error =>
    rw [htype] at split
    exact .failed (hook :: before) last after mid message
      ((hdue rest).trans (congrArg (hook :: ·) split)) (hsucceed _ _ succeeded) fails
      (congrArg (hook.handle :: ·) called) error
  | retyped front last back mid split fits succeeded other onward =>
    rw [htype] at fits succeeded other onward
    refine .retyped (hook :: front) last back mid (congrArg (hook :: ·) split) fits ?_ other ?_ <;>
      rw [hdue]
    · exact hsucceed _ _ succeeded
    · rw [onward]
      rfl

end Ran

/-- Whatever the hooks of a list do, a run calls those for the phase and the type. -/
theorem ran_runEach (m : Moment) (phase : Phase) (result : Option QueryResult)
    (list : List (PhaseHook σ)) (e : Entity) (state : σ) :
    Ran m phase result list e state (runEach m phase result list e state) := by
  induction list generalizing e state with
  | nil => exact .completed rfl .nil rfl
  | cons hook rest ih =>
    rw [runEach]
    by_cases hfits : hook.phase = phase ∧ hook.typeName = e.typeName
    · rw [if_pos hfits]
      rcases hcall : hook.call m e result state with ⟨e', state', failure⟩
      cases failure with
      | some message =>
        exact .failed [] hook _ (e, state) message (due_cons_of_fits hfits rest) .nil hcall rfl rfl
      | none =>
        by_cases htype : e'.typeName = e.typeName
        · exact .cons hfits hcall htype (ih e' state')
        · exact .retyped [] hook rest (e', state') rfl hfits (.cons hcall .nil) htype rfl
    · rw [if_neg hfits]
      exact .skip hfits (ih e state)

/-- The hooks are called in their order, each at most once. Nothing is asked of what they do: one
that fails, or that puts an entity of another type in the place of its own, only makes the list
shorter. -/
theorem called_runEach_sublist (m : Moment) (phase : Phase) (result : Option QueryResult)
    (list : List (PhaseHook σ)) (e : Entity) (state : σ) :
    (runEach m phase result list e state).called.Sublist (list.map (·.handle)) := by
  induction list generalizing e state with
  | nil => exact .slnil
  | cons hook rest ih =>
    rw [runEach, List.map_cons]
    split
    · rcases hook.call m e result state with ⟨e', state', failure⟩
      cases failure with
      | some message => exact (List.nil_sublist _).cons_cons _
      | none => exact (ih e' state').cons_cons _
    · exact (ih e state).cons _

/-! ### The registrations of an application -/

/-- The registrations answer from what their history leaves. -/
structure Orderly (hooks : Hooks σ) (history : List (Record σ)) : Prop where
  /-- Handles are numbered in the order in which they were returned, -/
  numbered : issued history = (List.range hooks.next).map HookHandle.mk
  /-- and so no two of them are the same. -/
  distinct : (issued history).Nodup
  /-- What is left was registered and not taken back since, -/
  left : ∀ entry, entry ∈ live history ↔ Stands history entry
  /-- it stands in the order of registration, -/
  ordered : ((live history).map Registration.handle).Sublist (issued history)
  /-- and the hooks and the handlers are those that are left. -/
  lists : hooks.Lists (live history)
  size : hooks.size = (live history).length
  /-- A handle is taken back exactly if it was returned and has not been taken back since. -/
  found : ∀ handle, (hooks.unregister handle).1 = true ↔
    ∃ entry, Stands history entry ∧ entry.handle = handle
  /-- This removes the registration and leaves the others in their order. -/
  removed : ∀ front entry back, live history = front ++ entry :: back →
    (hooks.unregister entry.handle).2.Lists (front ++ back)
  /-- Otherwise nothing changes. -/
  missed : ∀ handle, (hooks.unregister handle).1 = false → (hooks.unregister handle).2 = hooks
  /-- A run calls the hooks that are left for the phase and the type of the entity. -/
  ran : ∀ m phase result e state, Ran m phase result ((live history).filterMap Registration.hook?)
    e state (hooks.run m phase e result state)
  /-- They are called in the order of registration, whatever they do to the entity, -/
  sorted : ∀ m phase result e state, (hooks.run m phase e result state).called.Sublist
    (((live history).filterMap Registration.hook?).map (·.handle))
  /-- and none of them twice. -/
  once : (((live history).filterMap Registration.hook?).map (·.handle)).Nodup

/-- **Registrations are an ordered registry.** Whatever an application registers and takes back, in
whatever order and with whatever handles, the registrations are those that it has made and not taken
back since. -/
theorem orderly_serve (commands : List (Command σ)) :
    let served := (Hooks.empty : Hooks σ).serve commands
    served.2.Orderly served.1 := by
  intro served
  have h : served.2.Registry served.1 := Registry.empty.serve commands
  obtain ⟨history, hooks⟩ := served
  have hfound : ∀ handle, (hooks.unregister handle).1 = true ↔
      ∃ entry ∈ live history, entry.handle = handle := h.lists.found_unregister_iff
  constructor
  case numbered => exact h.numbered
  case distinct => exact h.nodup_issued
  case left => exact fun _ => mem_live_iff
  case ordered => exact map_handle_live_sublist
  case lists => exact h.lists
  case size => exact h.lists.size_eq
  case found => simpa only [mem_live_iff] using hfound
  case removed => exact fun front entry back hlive => h.lists_unregister hlive
  case missed =>
    intro handle hmissed
    refine h.unregister_of_not_mem fun entry hentry heq => ?_
    rw [(hfound handle).mpr ⟨entry, hentry, heq⟩] at hmissed
    cases hmissed
  case ran =>
    intro m phase result e state
    rw [run, h.lists.hooks_eq]
    exact ran_runEach m phase result _ e state
  case sorted =>
    intro m phase result e state
    rw [run, h.lists.hooks_eq]
    exact called_runEach_sublist m phase result _ e state
  case once => exact Lists.map_handle_hooks_sublist.nodup h.nodup_live

-- a handle that is returned later, taken back before, then, and once more
example (call : Hook Unit) :
    let served := (Hooks.empty : Hooks Unit).serve
      [.unregister ⟨0⟩, .register "Person" .afterCreate call, .unregister ⟨0⟩, .unregister ⟨0⟩,
        .register "Animal" .afterCreate call]
    served.2.handles = [⟨1⟩] ∧ (served.1.filterMap fun
      | .registered _ => none
      | .unregistered _ found => some found) = [false, true, false] := ⟨rfl, rfl⟩

end Hooks

end GraphMapping
