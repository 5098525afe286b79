import GraphMapping.Proofs.Lifecycle.Restraint
import GraphMapping.Proofs.Work.FlushSteps

/-!
# Names in the course of a flush

A flush goes back and forth: hooks change entities, composing gives variables to them, and when an
operation is done the variables are taken back. What never goes back are the names that have been
handed out. `Evolves` says this of any two moments of a flush: a variable that an entity has later
on is one that it had before, or one that had not been handed out by then. So a variable that was
taken back is not given to anything else.

Steps other than composing hand out nothing at all and execute nothing, hooks included. They are
`Steady`, which is all that is needed to know about them.

## Main definitions

* `Evolves`: from the first store and names to the second ones, variables were only handed out anew
  and taken back.
* `FlushState.executed`: the statements executed so far.
* `FlushState.Steady`: a step that hands out and executes nothing.

## Main results

* `composeOperation_evolves`: composing.
* `afterStep_steady`, `beforeStep_steady`: the steps of an entity, whatever hooks do.
-/

namespace GraphMapping

/-! ### Evolution -/

/-- From the first store and names to the second ones, entities have kept their types, variables
were handed out anew or taken back, and numbers of parameters have only grown. -/
structure Evolves (store : Store) (names : Names) (store' : Store) (names' : Names) : Prop where
  types : ∀ key, (store'.get? key).map Entity.typeName = (store.get? key).map Entity.typeName
  /-- A variable that an entity has now was its own before or had not been handed out. -/
  fresh : ∀ key name, store'.nameOf? key = some name →
    store.nameOf? key = some name ∨ ¬ names.Issued name
  issued : ∀ name, names.Issued name → names'.Issued name
  counted : ∀ typeName, names.paramCount typeName ≤ names'.paramCount typeName
  named : store.NamedBy names → store'.NamedBy names'

namespace Evolves

variable {store store' store'' : Store} {names names' names'' : Names}

theorem trans (h : Evolves store names store' names') (h' : Evolves store' names' store'' names'') :
    Evolves store names store'' names'' where
  types key := (h'.types key).trans (h.types key)
  fresh key name hname := by
    rcases h'.fresh key name hname with hname | hnot
    · exact h.fresh key name hname
    · exact .inr fun hissued => hnot (h.issued name hissued)
  issued name hissued := h'.issued name (h.issued name hissued)
  counted typeName := (h.counted typeName).trans (h'.counted typeName)
  named := h'.named ∘ h.named

/-- A variable that has been handed out belongs to whom it belonged to. -/
theorem nameOf?_of_issued (h : Evolves store names store' names') {key : EntityKey} {name : String}
    (hname : store'.nameOf? key = some name) (hissued : names.Issued name) :
    store.nameOf? key = some name :=
  (h.fresh key name hname).resolve_right fun hnot => hnot hissued

theorem typeName (h : Evolves store names store' names') (x : Endpoint) :
    x.typeName store' = x.typeName store := by
  cases x with
  | id i => rfl
  | entity key =>
    have htype := congrArg (Option.elim · "" id) (h.types key)
    simpa [Endpoint.typeName, Option.elim_map] using htype

theorem of_naming (h : Naming store names store' names')
    (hcount : ∀ typeName, names.paramCount typeName ≤ names'.paramCount typeName)
    (hnamed : store'.NamedBy names') : Evolves store names store' names' where
  types key := by
    have hread := congrArg (fun store => (store.get? key).map Entity.typeName) h.same
    simpa [Store.get?_releaseVariables, Function.comp_def, Entity.releaseVariable] using hread
  fresh := h.fresh
  issued := h.issued
  counted := hcount
  named _ := hnamed

end Evolves

/-! ### Composing -/

section Compose

variable {store : Store} {names : Names} {m : Moment} {op : Operation}

/-- Composing an operation numbers parameters onward. -/
theorem composeOperation_counted (m : Moment) (op : Operation) (hnamed : store.NamedBy names)
    (typeName : String) :
    names.paramCount typeName ≤ (composeOperation m store names op).names.paramCount typeName := by
  rw [composeOperation]
  cases op.kind with
  | delete detach =>
    obtain ⟨collected, h, -⟩ := collectDeletion_collects (.start hnamed) [op.key]
    exact h.counted typeName
  | save =>
    cases hcheck : Batch.check store [op.key] with
    | error err =>
      simp only [composeSave, hcheck]
      exact Nat.le_refl _
    | ok u =>
      obtain ⟨parts, h⟩ := Batch.exists_parts (m := m) hnamed hcheck
      simp only [Batch.composeSave_eq hcheck]
      exact h.counted typeName

theorem composeOperation_evolves (m : Moment) (op : Operation) (hnamed : store.NamedBy names) :
    Evolves store names (composeOperation m store names op).store
      (composeOperation m store names op).names := by
  obtain ⟨hnaming, hnamed'⟩ := composeOperation_naming m op hnamed
  exact .of_naming hnaming (composeOperation_counted m op hnamed) hnamed'

end Compose

/-! ### Hooks in a flush -/

section Within

variable {σ : Type} {hooks : Hooks σ} {m : Moment} {R : Entity → Entity → Prop}
  {P : FlushState σ → FlushState σ → Prop}
  (hrefl : ∀ e, R e e) (htrans : ∀ a b c, R a b → R b c → R a c) (hhooks : hooks.Within R)
  (hsame : ∀ st, P st st)
  (hafter : ∀ st key e run, st.store.get? key = some e → R e run.entity →
    P st (st.afterHooks key run).2)

include hrefl htrans hhooks hsame hafter

/-- When hooks stay within a relation, running them is in every relation of states that taking over
what they led to is in. -/
theorem runHooks_rel (st : FlushState σ) (phase : Phase) (key : EntityKey)
    (result : Option QueryResult) : P st (st.runHooks hooks m phase key result).2 := by
  rw [FlushState.runHooks]
  cases he : st.store.get? key with
  | none => exact hsame st
  | some e => exact hafter st key e _ he (hhooks.run hrefl htrans e result st.app)

theorem dispatchChanges_rel (st : FlushState σ) (key : EntityKey) (result : QueryResult) :
    P st (st.dispatchChanges hooks m key result).2 := by
  rw [FlushState.dispatchChanges]
  cases he : st.store.get? key with
  | none => exact hsame st
  | some e =>
    dsimp only
    split
    · exact hsame st
    · exact hafter st key e _ he (hhooks.dispatch hrefl htrans e _ _ st.app)

end Within

/-! ### Steps that hand out nothing -/

variable {σ : Type} {m : Moment} {st st' st'' : FlushState σ}

/-- The statement that an event is the execution of. -/
def Event.statement? : Event → Option Statement
  | .executed statement => some statement
  | .step .. | .called .. => none

/-- The statements executed so far, in order. -/
def FlushState.executed (st : FlushState σ) : List Statement :=
  st.journal.filterMap Event.statement?

namespace FlushState

/-- Entities have kept their types, variables were only taken back, and nothing was executed. -/
structure Steady (st st' : FlushState σ) : Prop where
  names : st'.names = st.names
  executed : st'.executed = st.executed
  types : ∀ key,
    (st'.store.get? key).map Entity.typeName = (st.store.get? key).map Entity.typeName
  fades : ∀ key name, st'.store.nameOf? key = some name → st.store.nameOf? key = some name

namespace Steady

theorem refl (st : FlushState σ) : st.Steady st := ⟨rfl, rfl, fun _ => rfl, fun _ _ h => h⟩

theorem trans (h : st.Steady st') (h' : st'.Steady st'') : st.Steady st'' where
  names := h'.names.trans h.names
  executed := h'.executed.trans h.executed
  types key := (h'.types key).trans (h.types key)
  fades key name hname := h.fades key name (h'.fades key name hname)

theorem evolves (h : st.Steady st') : Evolves st.store st.names st'.store st'.names where
  types := h.types
  fresh key name hname := .inl (h.fades key name hname)
  issued name hissued := h.names ▸ hissued
  counted typeName := by rw [h.names]
  named hnamed := by
    rw [h.names]
    exact ⟨fun key name hname => hnamed.issued key name (h.fades key name hname),
      fun key key' name hname hname' =>
        hnamed.distinct key key' name (h.fades key name hname) (h.fades key' name hname')⟩

theorem note (st : FlushState σ) {event : Event} (h : event.statement? = none) :
    st.Steady (st.note event) :=
  ⟨rfl, by simp [FlushState.note, FlushState.executed, h], fun _ => rfl, fun _ _ h => h⟩

/-- Changing a stored entity whose type stays, and whose variable is at most taken back. -/
theorem modify (st : FlushState σ) {key : EntityKey} {f : Entity → Entity}
    (h : ∀ e, st.store.get? key = some e → (f e).typeName = e.typeName ∧
      ∀ name, (f e).queryVariable = some name → e.queryVariable = some name) :
    st.Steady (st.modify key f) where
  names := rfl
  executed := rfl
  types other := by
    by_cases hother : other = key
    · subst hother
      rw [FlushState.modify, Store.get?_modify_self]
      cases he : st.store.get? other with
      | none => rfl
      | some e => exact congrArg some (h e he).1
    · rw [FlushState.modify, Store.get?_modify_of_ne st.store hother]
  fades other name hname := by
    rw [FlushState.modify] at hname
    by_cases hother : other = key
    · subst hother
      cases he : st.store.get? other with
      | none => simp [Store.nameOf?, he] at hname
      | some e =>
        rw [Store.nameOf?_modify_self he] at hname
        rw [Store.nameOf?, he]
        exact (h e he).2 name hname
    · rwa [Store.nameOf?_modify_of_ne hother] at hname

/-- Taking over what hooks led to that kept variable, type and kind. -/
theorem afterHooks {key : EntityKey} {e : Entity} (he : st.store.get? key = some e)
    {run : HookRun σ} (h : e.Keeps run.entity) : st.Steady (st.afterHooks key run).2 := by
  have hmodify : st.Steady (st.modify key fun _ => run.entity) := by
    refine modify st fun e' he' => ?_
    obtain rfl := Option.some.inj (he.symm.trans he')
    exact ⟨h.typeName, fun name hname => h.queryVariable ▸ hname⟩
  have hcalled : (run.called.map Event.called).filterMap Event.statement? = [] := by
    rw [List.filterMap_eq_nil_iff]
    intro event hevent
    obtain ⟨handle, -, rfl⟩ := List.mem_map.mp hevent
    rfl
  refine ⟨rfl, ?_, hmodify.types, hmodify.fades⟩
  simp only [FlushState.afterHooks, FlushState.executed, List.filterMap_append, hcalled,
    List.append_nil]

end Steady

end FlushState

section Steps

variable {hooks : Hooks σ}

theorem releaseTouched_steady (obs : List Obligation) (st : FlushState σ) :
    st.Steady (releaseTouched obs st) :=
  releaseTouched_rel FlushState.Steady.refl (fun _ _ _ => FlushState.Steady.trans)
    (fun _ _ st => .modify st fun _ _ => ⟨rfl, fun _ hname => nomatch hname⟩) st

theorem eachObligation_steady {step : Obligation → FlushState σ → FlushStep σ Unit}
    (hstep : ∀ ob st, FlushState.Steady st (step ob st).2) (obs : List Obligation)
    (st : FlushState σ) : st.Steady (eachObligation step obs st).2 :=
  eachObligation_rel FlushState.Steady.refl (fun _ _ _ => FlushState.Steady.trans)
    (fun ob _ => hstep ob) st

theorem refresh_steady (st : FlushState σ) (key : EntityKey) (result : QueryResult) :
    st.Steady (st.modify key (Entity.refresh · m result)) := by
  refine .modify st fun e _ => ?_
  rw [Entity.refresh]
  split <;> exact ⟨rfl, fun _ hname => hname⟩

variable (hhooks : hooks.Restrained)

include hhooks

theorem runHooks_steady (st : FlushState σ) (phase : Phase) (key : EntityKey)
    (result : Option QueryResult) : st.Steady (st.runHooks hooks m phase key result).2 :=
  runHooks_rel .refl (fun _ _ _ => .trans) hhooks.within .refl
    (fun _ _ _ _ he hkeeps => .afterHooks he hkeeps) st phase key result

theorem dispatchChanges_steady (st : FlushState σ) (key : EntityKey) (result : QueryResult) :
    st.Steady (st.dispatchChanges hooks m key result).2 :=
  dispatchChanges_rel .refl (fun _ _ _ => .trans) hhooks.within .refl
    (fun _ _ _ _ he hkeeps => .afterHooks he hkeeps) st key result

theorem beforeStep_steady (ob : Obligation) (st : FlushState σ) :
    st.Steady (beforeStep hooks m ob st).2 :=
  (FlushState.Steady.note st rfl).trans (runHooks_steady hhooks _ _ _ _)

theorem afterStep_steady (result : QueryResult) (ob : Obligation) (st : FlushState σ) :
    st.Steady (afterStep hooks m result ob st).2 :=
  afterStep_rel (R := FlushState.Steady) (fun _ _ _ => FlushState.Steady.trans)
    (fun st => .note st rfl) (fun st phase => runHooks_steady hhooks st phase ob.key)
    (fun st => dispatchChanges_steady hhooks st ob.key) (fun st => refresh_steady st ob.key)
    (fun _ st => .modify st fun _ _ => ⟨rfl, fun _ hname => hname⟩) result st

end Steps

end GraphMapping
