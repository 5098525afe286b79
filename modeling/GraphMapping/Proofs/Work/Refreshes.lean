import GraphMapping.Proofs.Work.Identity

/-!
# Values that come back in a flush

A saved entity takes in what came back for it in its own step after the statement. The hooks of
this step are called before that if the entity is updated, and after it if it is new. As long as
they leave a property alone, it has the value that came back, whatever else they do. Hooks before
the statement may do anything, and so may the steps of other entities, which do not reach this one.

## Main definitions

* `Hooks.afterStatement`: the registrations that are called after a statement.
* `Hooks.Spares`: these leave a property alone.
* `FlushState.Holds`: a stored entity has a property and a variable.

## Main results

* `Reply.get?_runOperation`: a value that came back is loaded.
* `get?_runOperation_of_not_touches`: an entity that an operation does not touch.
-/

namespace GraphMapping

variable {σ : Type}

/-! ### Hooks after a statement -/

/-- Whether hooks for the phase are called before a statement. -/
def Phase.precedes : Phase → Bool
  | beforeCreate | beforeUpdate | beforeDelete => true
  | afterCreate | afterUpdate | afterDelete | propertyChanged => false

namespace Hooks

variable {hooks : Hooks σ} {m : Moment}

/-- The registrations that are called after a statement. -/
def afterStatement (hooks : Hooks σ) : Hooks σ :=
  { hooks with hooks := hooks.hooks.filter fun hook => !hook.phase.precedes }

theorem run_afterStatement {phase : Phase} (h : phase.precedes = false) (e : Entity)
    (result : Option QueryResult) (state : σ) :
    hooks.afterStatement.run m phase e result state = hooks.run m phase e result state := by
  rw [run, run, afterStatement]
  induction hooks.hooks generalizing e state with
  | nil => rfl
  | cons hook rest ih =>
    cases hphase : hook.phase.precedes with
    | true =>
      -- what is left out is for another phase
      have hnot : ¬(hook.phase = phase ∧ hook.typeName = e.typeName) := by
        rintro ⟨rfl, -⟩
        exact absurd (hphase.symm.trans h) Bool.true_eq_false_eq_False
      rw [List.filter_cons_of_neg (by simp [hphase]), runEach, if_neg hnot, ih]
    | false =>
      rw [List.filter_cons_of_pos (by simp [hphase]), runEach, runEach]
      simp only [ih]

theorem dispatch_afterStatement (e : Entity) (changes : Dict Change) (result : Option QueryResult)
    (state : σ) :
    hooks.afterStatement.dispatch m e changes result state =
      hooks.dispatch m e changes result state := by
  rw [dispatch, dispatch]
  generalize false = unhandled
  induction changes.toList generalizing unhandled e state with
  | nil =>
    rw [dispatchEach, dispatchEach, run_afterStatement rfl]
  | cons entry rest ih =>
    obtain ⟨field, change⟩ := entry
    rw [dispatchEach, dispatchEach]
    simp only [ih]
    rfl

end Hooks

/-- The second entity has the variable of the first one, and under the name the same property. -/
structure Entity.Spares (name : String) (e e' : Entity) : Prop where
  queryVariable : e'.queryVariable = e.queryVariable
  property : e'.properties.properties.get? name = e.properties.properties.get? name

namespace Entity.Spares

variable {name : String} {e e' e'' : Entity}

theorem refl (e : Entity) : Spares name e e := ⟨rfl, rfl⟩

theorem trans (h : Spares name e e') (h' : Spares name e' e'') : Spares name e e'' :=
  ⟨h'.queryVariable.trans h.queryVariable, h'.property.trans h.property⟩

end Entity.Spares

/-- No registration that is called after a statement changes the property of the name. -/
def Hooks.Spares (hooks : Hooks σ) (name : String) : Prop :=
  hooks.afterStatement.Within (Entity.Spares name)

/-! ### Loading what came back -/

/-- What came back for a property is loaded into it. -/
theorem Entity.get?_refresh {e : Entity} {m : Moment} {result : QueryResult} {name : String}
    {p : Property} {id : Int64} {properties : Dict Value} {value : Value}
    (hreturned : e.returnedParts? result = some (id, properties))
    (hp : e.properties.properties.get? name = some p) (hvalue : properties.get? name = some value) :
    (e.refresh m result).properties.properties.get? name = some (p.load (some value)) := by
  rw [refresh_eq, hreturned]
  show ((e.setId id).properties.load properties.toList).properties.get? name = _
  rw [Bag.get?_load, Dict.ofList_toList, hvalue]
  show Property.reload? _ (e.properties.properties.get? name) _ = _
  rw [hp, Property.reload?, Option.isNone_some, Bool.and_false]
  rfl

/-- The stored entity has the variable, and under the name the property. -/
def FlushState.Holds (st : FlushState σ) (key : EntityKey) (bound : Option String)
    (name : String) (p : Property) : Prop :=
  ∃ e, st.store.get? key = some e ∧ e.queryVariable = bound ∧
    e.properties.properties.get? name = some p

section Steps

variable {hooks : Hooks σ} {m : Moment} {st : FlushState σ} {key : EntityKey}
  {bound : Option String} {name : String} {p : Property} {result : QueryResult} {ob : Obligation}
  {op : Operation}

namespace FlushState.Holds

/-- Changes of other entities do not matter. -/
theorem of_get?_eq {st' : FlushState σ} (h : st.Holds key bound name p)
    (hsame : st'.store.get? key = st.store.get? key) : st'.Holds key bound name p := by
  rwa [Holds, hsame]

theorem modify {f : Entity → Entity} {q : Property} (h : st.Holds key bound name p)
    (hf : ∀ e : Entity, e.queryVariable = bound → e.properties.properties.get? name = some p →
      (f e).queryVariable = bound ∧ (f e).properties.properties.get? name = some q) :
    (st.modify key f).Holds key bound name q := by
  obtain ⟨e, he, hvariable, hp⟩ := h
  exact ⟨f e, Store.get?_modify_of_get? he f, hf e hvariable hp⟩

/-- Bringing the entity in line with the result loads what came back. -/
theorem refresh {id : Int64} {properties : Dict Value} {value : Value}
    (hparts : (bound.bind result.first?).bind GraphValue.entityParts? = some (id, properties))
    (hvalue : properties.get? name = some value) (h : st.Holds key bound name p) :
    (st.modify key (Entity.refresh · m result)).Holds key bound name (p.load (some value)) := by
  refine h.modify fun e hvariable hp => ⟨?_, ?_⟩
  · rw [Entity.refresh]
    split <;> exact hvariable
  · have hreturned : e.returnedParts? result = some (id, properties) := by
      rwa [Entity.returnedParts?, hvariable]
    exact Entity.get?_refresh hreturned hp hvalue

theorem afterHooks (h : st.Holds key bound name p) {other : EntityKey} {e : Entity}
    {run : HookRun σ} (he : st.store.get? other = some e) (hspares : e.Spares name run.entity) :
    (st.afterHooks other run).2.Holds key bound name p := by
  by_cases hkey : key = other
  · subst hkey
    obtain ⟨e', he', hvariable, hp⟩ := h
    obtain rfl := Option.some.inj (he.symm.trans he')
    exact ⟨run.entity, Store.get?_modify_of_get? he _, hspares.queryVariable.trans hvariable,
      hspares.property.trans hp⟩
  · exact h.of_get?_eq (Store.get?_modify_of_ne st.store hkey _)

variable (hspares : hooks.Spares name)

include hspares

theorem runHooks {phase : Phase} (hphase : phase.precedes = false) (other : EntityKey)
    (result : Option QueryResult) (h : st.Holds key bound name p) :
    (st.runHooks hooks m phase other result).2.Holds key bound name p := by
  have hsame : st.runHooks hooks m phase other result =
      st.runHooks hooks.afterStatement m phase other result := by
    simp only [FlushState.runHooks, Hooks.run_afterStatement hphase]
  rw [hsame]
  exact runHooks_rel
    (P := fun st st' => st.Holds key bound name p → st'.Holds key bound name p)
    .refl (fun _ _ _ => .trans) hspares (fun _ => id)
    (fun _ _ _ _ he hentity h => h.afterHooks he hentity) st phase other result h

theorem dispatchChanges (other : EntityKey) (result : QueryResult)
    (h : st.Holds key bound name p) :
    (st.dispatchChanges hooks m other result).2.Holds key bound name p := by
  have hsame : st.dispatchChanges hooks m other result =
      st.dispatchChanges hooks.afterStatement m other result := by
    simp only [FlushState.dispatchChanges, Hooks.dispatch_afterStatement]
  rw [hsame]
  exact dispatchChanges_rel
    (P := fun st st' => st.Holds key bound name p → st'.Holds key bound name p)
    .refl (fun _ _ _ => .trans) hspares (fun _ => id)
    (fun _ _ _ _ he hentity h => h.afterHooks he hentity) st other result h

variable {id : Int64} {properties : Dict Value} {value : Value}
  (hparts : (bound.bind result.first?).bind GraphValue.entityParts? = some (id, properties))
  (hvalue : properties.get? name = some value)

include hparts hvalue

/-- The step of a saved entity loads what came back, unless a hook fails. -/
theorem load_afterStep (hfamily : ob.family ≠ .delete) (h : st.Holds ob.key bound name p)
    (hok : (afterStep hooks m result ob st).1 = .ok ()) :
    (afterStep hooks m result ob st).2.Holds ob.key bound name
      (p.load (some value)) := by
  have hnoted : (st.note (.step ob.key ob.family.after)).Holds ob.key bound name p := h
  rw [afterStep] at hok ⊢
  generalize st.note (.step ob.key ob.family.after) = st₁ at hok hnoted ⊢
  cases hcase : ob.family with
  | create => exact runHooks hspares rfl _ _ (refresh hparts hvalue hnoted)
  | update =>
    have hchanges := dispatchChanges hspares (m := m) ob.key result hnoted
    simp only [hcase] at hok ⊢
    rcases hrun : st₁.dispatchChanges hooks m ob.key result with ⟨_ | _, st₂⟩
    · simp [hrun] at hok
    · simp only [hrun] at hok hchanges ⊢
      have hphase : Phase.afterUpdate.precedes = false := rfl
      have hafter := runHooks hspares (m := m) hphase ob.key (some result) hchanges
      rcases hrun : st₂.runHooks hooks m .afterUpdate ob.key (some result) with ⟨_ | _, st₃⟩
      · simp [hrun] at hok
      · rw [hrun] at hafter
        exact refresh hparts hvalue hafter
  | delete => exact absurd hcase hfamily

/-- After the steps of all entities it has been loaded if one of them was the entity's own. Loading
it again makes no difference. -/
theorem load_afterSteps {obs : List Obligation} {st' : FlushState σ}
    (hfamilies : ∀ ob ∈ obs, ob.family ≠ .delete) (h : st.Holds key bound name p)
    (hrun : eachObligation (afterStep hooks m result) obs st = (.ok (), st')) :
    st'.Holds key bound name (if key ∈ obs.map (·.key) then p.load (some value) else p) := by
  induction obs generalizing st p with
  | nil =>
    obtain ⟨-, rfl⟩ := Prod.mk.inj hrun
    exact h
  | cons ob rest ih =>
    obtain ⟨hfirst, hrest⟩ := List.forall_mem_cons.mp hfamilies
    rw [eachObligation] at hrun
    rcases hstep : afterStep hooks m result ob st with ⟨_ | _, st₁⟩
    · simp [hstep] at hrun
    · simp only [hstep] at hrun
      by_cases hkey : key = ob.key
      · subst hkey
        have hloaded := load_afterStep hspares hparts hvalue hfirst h (congrArg Prod.fst hstep)
        rw [hstep] at hloaded
        have hlast := ih hrest hloaded hrun
        have hagain : (p.load (some value)).load (some value) = p.load (some value) := rfl
        rw [hagain, ite_self] at hlast
        rwa [List.map_cons, if_pos (List.mem_cons_self ..)]
      · have hsame : (afterStep hooks m result ob st).2.store.get? key = st.store.get? key :=
          get?_afterStep_of_ne hkey result st
        rw [hstep] at hsame
        have hlast := ih hrest (h.of_get?_eq hsame) hrun
        simpa [hkey] using hlast

end FlushState.Holds

/-- Taking variables back leaves properties alone. -/
theorem properties_releaseTouched (key : EntityKey) (obs : List Obligation) (st : FlushState σ) :
    ((releaseTouched obs st).store.get? key).map Entity.properties =
      (st.store.get? key).map Entity.properties := by
  refine releaseTouched_rel
    (R := fun st st' => (st'.store.get? key).map Entity.properties =
      (st.store.get? key).map Entity.properties)
    (fun _ => rfl) (fun _ _ _ h h' => h'.trans h) (fun ob _ st => ?_) st
  by_cases hkey : key = ob.key
  · rw [hkey, FlushState.modify, Store.get?_modify_self, Option.map_map]
    rfl
  · rw [FlushState.modify, Store.get?_modify_of_ne st.store hkey]

/-- A value that came back for a property of a saved entity is loaded, when the operation is carried
out and the hooks after its statement leave the property alone. -/
theorem Reply.get?_runOperation {reply : Reply} {st' : FlushState σ}
    {done : Option Statement × QueryResult} {e : Entity} {id : Int64} {properties : Dict Value}
    {value : Value} (hspares : hooks.Spares name)
    (hanswer : answerOperation hooks m op st = (.ok reply, st'))
    (htargets : op.Targets st.store key) (hdone : (runOperation hooks m op st).1 = .ok done)
    (he : st'.store.get? key = some e) (hp : e.properties.properties.get? name = some p)
    (hreturned : e.returnedParts? reply.result = some (id, properties))
    (hvalue : properties.get? name = some value) :
    ∃ e', (runOperation hooks m op st).2.store.get? key = some e' ∧
      e'.properties.properties.get? name = some (p.load (some value)) := by
  obtain ⟨-, hobs, -⟩ := answerOperation_inv hanswer
  have hfamilies : ∀ ob ∈ reply.obs, ob.family ≠ .delete := fun ob hob hdelete =>
    (deletes_of_mem_obligations hobs hob hdelete).2 htargets.1
  have hmem : key ∈ reply.obs.map (·.key) := by
    obtain ⟨ob, hob, rfl⟩ := exists_of_touches hanswer htargets.touches
    exact List.mem_map_of_mem hob
  rw [runOperation_eq, hanswer] at hdone ⊢
  simp only [settleOperation] at hdone ⊢
  rcases hafter : eachObligation (afterStep hooks m reply.result) reply.obs st' with
    ⟨_ | _, st₁⟩
  · simp [hafter] at hdone
  · have hholds : st'.Holds key e.queryVariable name p := ⟨e, he, rfl, hp⟩
    obtain ⟨e₁, he₁, -, hp₁⟩ := hholds.load_afterSteps hspares hreturned hvalue hfamilies hafter
    rw [if_pos hmem] at hp₁
    have hreleased := properties_releaseTouched key reply.obs st₁
    rw [he₁] at hreleased
    obtain ⟨e₂, he₂, hsame⟩ := Option.map_eq_some_iff.mp hreleased
    exact ⟨e₂, he₂, hsame ▸ hp₁⟩

/-- An operation does nothing to an entity that it does not touch, its variable apart. -/
theorem get?_runOperation_of_not_touches (hnot : ¬ op.Touches st.store key) :
    ((runOperation hooks m op st).2.store.get? key).map Entity.releaseVariable =
      (st.store.get? key).map Entity.releaseVariable := by
  have hsteps : StepsWithin hooks m op (fun ob => key ≠ ob.key) fun st st' =>
      (st'.store.get? key).map Entity.releaseVariable =
        (st.store.get? key).map Entity.releaseVariable :=
    { refl := fun _ => rfl
      trans := fun _ _ _ h h' => h'.trans h
      before := fun _ h st => by rw [get?_beforeStep_of_ne h]
      compose := fun st => by
        have hread := congrArg (·.get? key)
          (composeOperation_hands_out m st.store st.names op).same
        simpa only [Store.get?_releaseVariables] using hread
      execute := fun statement st => by rw [store_executeStatement]
      after := fun result _ h st => by rw [get?_afterStep_of_ne h]
      release := fun _ h st => by rw [FlushState.modify, Store.get?_modify_of_ne st.store h] }
  refine hsteps.run fun obs hobs ob hob hkey => hnot ?_
  rw [hkey]
  exact (of_mem_obligations hobs hob).1

end Steps

end GraphMapping
