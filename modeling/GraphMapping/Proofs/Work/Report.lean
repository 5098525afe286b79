import GraphMapping.Proofs.Work.Journal

/-!
# What a flush reports

The response of a flush gains by each operation that is carried out. Hooks have no access to the
connection, so what it answers is decided by the statements alone, in the order in which they are
executed.

## Main definitions

* `Connection.rows`, `Connection.after`: the rows of the answers to several statements, and the
  connection that is left.

## Main results

* `rows_runOperation`: the result of an operation is the answer to its statement.
* `report_runOperations`: the operations and the rows of a response.
-/

namespace GraphMapping

variable {σ : Type}

/-! ### Answers -/

namespace Connection

/-- The connection after answering statements in order. -/
def after (c : Connection) (statements : List Statement) : Connection :=
  statements.foldl (fun c s => (c.answer s).2) c

/-- The rows of the answers to statements in order. A failure has none. -/
def rows : Connection → List Statement → List Row
  | _, [] => []
  | c, s :: rest => (c.answer s).1.toOption.elim [] QueryResult.rows ++ (c.answer s).2.rows rest

theorem rows_append (c : Connection) (front back : List Statement) :
    c.rows (front ++ back) = c.rows front ++ (c.after front).rows back := by
  induction front generalizing c with
  | nil => rfl
  | cons s rest ih =>
    rw [List.cons_append, rows, rows, ih, List.append_assoc]
    rfl

end Connection

/-! ### Results -/

section Operations

variable {hooks : Hooks σ} {m : Moment} {op : Operation} {st st' : FlushState σ}
  {statement : Option Statement} {result : QueryResult}

theorem rows_executeStatement (h : executeStatement statement st = (.ok result, st')) :
    result.rows = st.connection.rows statement.toList ∧
      st'.connection = st.connection.after statement.toList := by
  cases statement with
  | none =>
    obtain ⟨hresult, rfl⟩ := Prod.mk.inj h
    obtain rfl := Except.ok.inj hresult
    exact ⟨rfl, rfl⟩
  | some s =>
    have hreply : (st.connection.answer s).1.mapError MapperError.classify = .ok result :=
      congrArg Prod.fst h
    obtain rfl : _ = st' := congrArg Prod.snd h
    refine ⟨?_, rfl⟩
    rw [Option.toList_some, Connection.rows, Connection.rows, List.append_nil]
    rcases hanswer : (st.connection.answer s).1 with err | reply
    · rw [hanswer] at hreply
      cases hreply
    · rw [hanswer] at hreply
      rw [← Except.ok.inj hreply]
      rfl

/-- Calling hooks has nothing to do with the connection. -/
theorem connection_runHooks (st : FlushState σ) (phase : Phase) (key : EntityKey)
    (result : Option QueryResult) :
    (st.runHooks hooks m phase key result).2.connection = st.connection := by
  rw [FlushState.runHooks]
  split <;> rfl

theorem connection_dispatchChanges (st : FlushState σ) (key : EntityKey) (result : QueryResult) :
    (st.dispatchChanges hooks m key result).2.connection = st.connection := by
  rw [FlushState.dispatchChanges]
  split
  · rfl
  · dsimp only
    split <;> rfl

theorem connection_beforeStep (ob : Obligation) (st : FlushState σ) :
    (beforeStep hooks m ob st).2.connection = st.connection :=
  connection_runHooks (st.note _) _ _ _

theorem connection_afterStep (result : QueryResult) (ob : Obligation) (st : FlushState σ) :
    (afterStep hooks m result ob st).2.connection = st.connection :=
  afterStep_rel (R := fun st st' => st'.connection = st.connection) (fun _ _ _ h h' => h'.trans h)
    (fun _ => rfl) (fun st _ _ => connection_runHooks st _ _ _)
    (fun st _ => connection_dispatchChanges st _ _) (fun _ _ => rfl) (fun _ _ => rfl) result st

theorem connection_eachObligation {step : Obligation → FlushState σ → FlushStep σ Unit}
    (hstep : ∀ ob st, (step ob st).2.connection = st.connection) (obs : List Obligation)
    (st : FlushState σ) : (eachObligation step obs st).2.connection = st.connection :=
  eachObligation_rel (R := fun st st' => st'.connection = st.connection) (fun _ => rfl)
    (fun _ _ _ h h' => h'.trans h) (fun ob _ => hstep ob) st

/-- The result of an operation is the answer to its statement, and the connection answers nothing
else. -/
theorem rows_runOperation (h : runOperation hooks m op st = (.ok (statement, result), st')) :
    result.rows = st.connection.rows statement.toList ∧
      st'.connection = st.connection.after statement.toList := by
  obtain ⟨obs, st₁, st₂, st₃, -, hbefore, -, hexecute, hafter, rfl⟩ := runOperation_inv h
  have hsteps : st₁.connection = st.connection := by
    have heach : (eachObligation (beforeStep hooks m) obs st).2.connection = st.connection :=
      connection_eachObligation connection_beforeStep obs st
    rwa [hbefore] at heach
  obtain ⟨hrows, hconnection⟩ := rows_executeStatement hexecute
  have hsteps' : st₃.connection = st₂.connection := by
    have heach : (eachObligation (afterStep hooks m result) obs st₂).2.connection =
        st₂.connection :=
      connection_eachObligation (connection_afterStep result) obs st₂
    rwa [hafter] at heach
  refine ⟨hrows.trans (by rw [← hsteps]), ?_⟩
  rw [releaseTouched_eq, ← hsteps]
  exact hsteps'.trans hconnection

end Operations

/-! ### Responses -/

/-- The response of a flush that succeeds lists all operations as finalized, and its result has the
rows of the answers to the executed statements. -/
theorem report_runOperations {hooks : Hooks σ} {m : Moment} {ops : List Operation}
    {st st' : FlushState σ} {response response' : Response}
    (h : runOperations hooks m ops response st = (.ok response', st')) :
    response'.operations =
        response.operations ++ ops.map (fun op => { op with state := .finalized }) ∧
      response'.result.rows = response.result.rows ++
        st.connection.rows ((executions hooks m ops st).map (·.statement)) := by
  induction ops generalizing response st with
  | nil =>
    obtain ⟨hresponse, -⟩ := Prod.mk.inj h
    obtain rfl := Except.ok.inj hresponse
    exact ⟨(List.append_nil _).symm, (List.append_nil _).symm⟩
  | cons op rest ih =>
    rw [runOperations] at h
    rw [executions, List.map_append, ← Option.toList_map]
    rcases hop : runOperation hooks m op st with ⟨_ | ⟨statement, result⟩, st₁⟩
    · simp [hop] at h
    · simp only [hop] at h
      obtain ⟨hrows, hconnection⟩ := rows_runOperation hop
      obtain ⟨hoperations, hresult⟩ := ih h
      rw [execution?_of_ok hop, Connection.rows_append, ← hrows, ← hconnection, List.map_cons,
        List.append_cons, ← List.append_assoc]
      exact ⟨hoperations, hresult⟩

end GraphMapping
