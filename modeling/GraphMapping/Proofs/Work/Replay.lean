import GraphMapping.Proofs.Work.Settling

/-!
# What a flush depends on

Without hooks a flush reads the pending operations, the store, the counters for names and the
answers to come, and nothing else. The application's own state is there for hooks only, and what a
connection has executed before is kept for the record. So two flushes that begin alike take the same
steps and end alike, whichever applications they belong to, and also when they fail.

## Main definitions

* `FlushState.Alike`: two states, of any two applications, agree on what a flush reads and notes.
* `EndsAlike`: two steps have the same outcome and lead to states that are alike.

## Main results

* `FlushState.Alike.runOperation`: carrying out one operation.
* `FlushState.Alike.runOperations`: carrying out several, also up to one that fails.
-/

namespace GraphMapping

variable {σ σ' : Type} {α : Type}

/-- What connections answer depends on the answers to come only. What was asked before is recorded
and never looked at. -/
theorem Connection.execute_congr {c c' : Connection} (h : c.answers = c'.answers)
    (statement : Statement) :
    (c.execute statement).1 = (c'.execute statement).1 ∧
      (c.execute statement).2.answers = (c'.execute statement).2.answers := by
  simp only [execute, answer, ← h]
  cases c.answers <;> exact ⟨rfl, rfl⟩

/-- Two states, of any two applications, agree on what a flush reads and notes. -/
structure FlushState.Alike (st : FlushState σ) (st' : FlushState σ') : Prop where
  store : st.store = st'.store
  names : st.names = st'.names
  answers : st.connection.answers = st'.connection.answers
  journal : st.journal = st'.journal

/-- Two steps have the same outcome and lead to states that are alike. -/
structure EndsAlike (run : FlushStep σ α) (run' : FlushStep σ' α) : Prop where
  outcome : run.1 = run'.1
  state : run.2.Alike run'.2

/-- Either both steps fail with the same error, or both succeed with the same result. -/
theorem EndsAlike.cases {run : FlushStep σ α} {run' : FlushStep σ' α} (h : EndsAlike run run') :
    ∃ st st', st.Alike st' ∧
      ((∃ err, run = (.error err, st) ∧ run' = (.error err, st')) ∨
        ∃ a, run = (.ok a, st) ∧ run' = (.ok a, st')) := by
  obtain ⟨outcome, st⟩ := run
  obtain ⟨outcome', st'⟩ := run'
  obtain rfl : outcome = outcome' := h.outcome
  refine ⟨st, st', h.state, ?_⟩
  cases outcome with
  | error err => exact .inl ⟨err, rfl, rfl⟩
  | ok a => exact .inr ⟨a, rfl, rfl⟩

namespace FlushState.Alike

variable {hooks : Hooks σ} {hooks' : Hooks σ'} {m : Moment} {st : FlushState σ}
  {st' : FlushState σ'}

/-! ### Elementary changes -/

theorem note (h : st.Alike st') (event : Event) : (st.note event).Alike (st'.note event) :=
  ⟨h.store, h.names, h.answers, congrArg (· ++ [event]) h.journal⟩

theorem modify (h : st.Alike st') (key : EntityKey) (f : Entity → Entity) :
    (st.modify key f).Alike (st'.modify key f) :=
  ⟨congrArg (Store.modify · key f) h.store, h.names, h.answers, h.journal⟩

theorem executeStatement (h : st.Alike st') (statement : Option Statement) :
    EndsAlike (GraphMapping.executeStatement statement st)
      (GraphMapping.executeStatement statement st') := by
  cases statement with
  | none => exact ⟨rfl, h⟩
  | some s =>
    obtain ⟨houtcome, hanswers⟩ := Connection.execute_congr h.answers s
    exact ⟨houtcome, h.store, h.names, hanswers, congrArg (· ++ [Event.executed s]) h.journal⟩

theorem releaseTouched (h : st.Alike st') (obs : List Obligation) :
    (GraphMapping.releaseTouched obs st).Alike (GraphMapping.releaseTouched obs st') := by
  induction obs generalizing st st' with
  | nil => exact h
  | cons ob rest ih => exact ih (h.modify ob.key Entity.releaseVariable)

/-- Steps in order, when each of them keeps states alike. -/
theorem eachObligation {step : Obligation → FlushState σ → FlushStep σ Unit}
    {step' : Obligation → FlushState σ' → FlushStep σ' Unit}
    (hstep : ∀ ob (st : FlushState σ) (st' : FlushState σ'), st.Alike st' →
      EndsAlike (step ob st) (step' ob st'))
    (h : st.Alike st') (obs : List Obligation) :
    EndsAlike (GraphMapping.eachObligation step obs st)
      (GraphMapping.eachObligation step' obs st') := by
  induction obs generalizing st st' with
  | nil => exact ⟨rfl, h⟩
  | cons ob rest ih =>
    rw [GraphMapping.eachObligation, GraphMapping.eachObligation]
    obtain ⟨st₁, st₁', h₁, ⟨err, hrun, hrun'⟩ | ⟨⟨⟩, hrun, hrun'⟩⟩ := (hstep ob st st' h).cases
    · rw [hrun, hrun']
      exact ⟨rfl, h₁⟩
    · rw [hrun, hrun']
      exact ih h₁

/-! ### Steps without hooks -/

variable (hhooks : hooks.size = 0) (hhooks' : hooks'.size = 0)

include hhooks hhooks'

theorem runHooks (h : st.Alike st') (phase : Phase) (key : EntityKey)
    (result : Option QueryResult) :
    EndsAlike (st.runHooks hooks m phase key result) (st'.runHooks hooks' m phase key result) := by
  cases he : st.store.get? key with
  | none =>
    have he' : st'.store.get? key = none := h.store ▸ he
    simp only [FlushState.runHooks, he, he']
    exact ⟨rfl, h⟩
  | some e =>
    have hstored : (st.store.get? key).isSome := Option.isSome_iff_exists.mpr ⟨e, he⟩
    rw [runHooks_eq hhooks hstored, runHooks_eq hhooks' (h.store ▸ hstored)]
    exact ⟨rfl, h⟩

theorem dispatchChanges (h : st.Alike st') (key : EntityKey) (result : QueryResult) :
    EndsAlike (st.dispatchChanges hooks m key result)
      (st'.dispatchChanges hooks' m key result) := by
  cases he : st.store.get? key with
  | none =>
    have he' : st'.store.get? key = none := h.store ▸ he
    simp only [FlushState.dispatchChanges, he, he']
    exact ⟨rfl, h⟩
  | some e =>
    have hstored : (st.store.get? key).isSome := Option.isSome_iff_exists.mpr ⟨e, he⟩
    rw [dispatchChanges_eq hhooks hstored, dispatchChanges_eq hhooks' (h.store ▸ hstored)]
    exact ⟨rfl, h⟩

theorem beforeStep (h : st.Alike st') (ob : Obligation) :
    EndsAlike (GraphMapping.beforeStep hooks m ob st) (GraphMapping.beforeStep hooks' m ob st') :=
  (h.note _).runHooks hhooks hhooks' _ _ _

theorem afterStep (h : st.Alike st') (result : QueryResult) (ob : Obligation) :
    EndsAlike (GraphMapping.afterStep hooks m result ob st)
      (GraphMapping.afterStep hooks' m result ob st') := by
  rw [GraphMapping.afterStep, GraphMapping.afterStep]
  have hnoted := h.note (.step ob.key ob.family.after)
  generalize st.note (.step ob.key ob.family.after) = st₁ at hnoted
  generalize st'.note (.step ob.key ob.family.after) = st₁' at hnoted
  cases ob.family with
  | create => exact (hnoted.modify ob.key (Entity.refresh · m result)).runHooks hhooks hhooks' _ _ _
  | update =>
    obtain ⟨st₂, st₂', h₂, ⟨err, hrun, hrun'⟩ | ⟨⟨⟩, hrun, hrun'⟩⟩ :=
      (hnoted.dispatchChanges (m := m) hhooks hhooks' ob.key result).cases
    · simp only [hrun, hrun']
      exact ⟨rfl, h₂⟩
    simp only [hrun, hrun']
    obtain ⟨st₃, st₃', h₃, ⟨err, hrun, hrun'⟩ | ⟨⟨⟩, hrun, hrun'⟩⟩ :=
      (h₂.runHooks (m := m) hhooks hhooks' .afterUpdate ob.key (some result)).cases
    · simp only [hrun, hrun']
      exact ⟨rfl, h₃⟩
    · simp only [hrun, hrun']
      exact ⟨rfl, h₃.modify ob.key (Entity.refresh · m result)⟩
  | delete =>
    obtain ⟨st₂, st₂', h₂, ⟨err, hrun, hrun'⟩ | ⟨⟨⟩, hrun, hrun'⟩⟩ :=
      (hnoted.runHooks (m := m) hhooks hhooks' .afterDelete ob.key (some result)).cases
    · simp only [hrun, hrun']
      exact ⟨rfl, h₂⟩
    · simp only [hrun, hrun']
      exact ⟨rfl, h₂.modify ob.key Entity.clearId⟩

/-! ### Operations -/

theorem runOperation (h : st.Alike st') (op : Operation) :
    EndsAlike (GraphMapping.runOperation hooks m op st)
      (GraphMapping.runOperation hooks' m op st') := by
  rw [GraphMapping.runOperation, GraphMapping.runOperation, ← h.store]
  cases obligations st.store op with
  | error err => exact ⟨rfl, h⟩
  | ok obs =>
    obtain ⟨st₁, st₁', h₁, ⟨err, hrun, hrun'⟩ | ⟨⟨⟩, hrun, hrun'⟩⟩ :=
      (h.eachObligation (fun ob _ _ h => h.beforeStep (m := m) hhooks hhooks' ob) obs).cases
    · simp only [hrun, hrun']
      exact ⟨rfl, h₁⟩
    simp only [hrun, hrun', ← h₁.store, ← h₁.names]
    have hcomposed : FlushState.Alike
        { st₁ with
          store := (composeOperation m st₁.store st₁.names op).store
          names := (composeOperation m st₁.store st₁.names op).names }
        { st₁' with
          store := (composeOperation m st₁.store st₁.names op).store
          names := (composeOperation m st₁.store st₁.names op).names } :=
      ⟨rfl, rfl, h₁.answers, h₁.journal⟩
    cases (composeOperation m st₁.store st₁.names op).outcome with
    | error err => exact ⟨rfl, hcomposed⟩
    | ok statement =>
      obtain ⟨st₂, st₂', h₂, ⟨err, hrun, hrun'⟩ | ⟨result, hrun, hrun'⟩⟩ :=
        (hcomposed.executeStatement statement).cases
      · simp only [hrun, hrun']
        exact ⟨rfl, h₂⟩
      simp only [hrun, hrun']
      obtain ⟨st₃, st₃', h₃, ⟨err, hrun, hrun'⟩ | ⟨⟨⟩, hrun, hrun'⟩⟩ := (h₂.eachObligation
        (fun ob _ _ h => h.afterStep (m := m) hhooks hhooks' result ob) obs).cases
      · simp only [hrun, hrun']
        exact ⟨rfl, h₃⟩
      · simp only [hrun, hrun']
        exact ⟨rfl, h₃.releaseTouched obs⟩

theorem runOperations (h : st.Alike st') (ops : List Operation) (response : Response) :
    EndsAlike (GraphMapping.runOperations hooks m ops response st)
      (GraphMapping.runOperations hooks' m ops response st') := by
  induction ops generalizing response st st' with
  | nil => exact ⟨rfl, h⟩
  | cons op rest ih =>
    rw [GraphMapping.runOperations, GraphMapping.runOperations]
    obtain ⟨st₁, st₁', h₁, ⟨err, hrun, hrun'⟩ | ⟨⟨statement, result⟩, hrun, hrun'⟩⟩ :=
      (h.runOperation (m := m) hhooks hhooks' op).cases
    · rw [hrun, hrun']
      exact ⟨rfl, h₁⟩
    · rw [hrun, hrun']
      exact ih h₁ _

end FlushState.Alike

end GraphMapping
