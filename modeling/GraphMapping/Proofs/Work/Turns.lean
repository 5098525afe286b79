import GraphMapping.Proofs.Work.FlushSteps

/-!
# Turns of a flush

Carrying out an operation has two parts. First its statement is answered: what it touches is
determined, the steps before the statement are taken, and the statement is composed and executed.
Then come the steps after the statement, and they may fail when the statement has been executed.

An operation's turn is the state in which it begins. The turns of a flush are those of all
operations that begin, the failing one included. So what holds of a flush as a whole is shown by
looking at one turn, and then along the turns.

## Main definitions

* `Reply`, `answerOperation`, `settleOperation`: the two parts of an operation.
* `Turn`, `turns`: the operations of a flush that begin.
* `AnswersWithin`, `StepsWithin`: a relation of states that every step of an operation is in.

## Main results

* `runOperation_eq`: an operation is its two parts.
* `eachObligation_append`: steps one after the other.
* `exists_of_turns`, `runOperations_rel`: a flush along its turns.
* `StepsWithin.run`: what the steps are in, the operation is in.
-/

namespace GraphMapping

variable {σ : Type}

/-! ### The parts of an operation -/

/-- What an operation goes on with when its statement has been answered. -/
structure Reply where
  /-- What it touches, as determined in the beginning. -/
  obs : List Obligation
  /-- The statement that was executed, if one was needed. -/
  statement : Option Statement
  result : QueryResult

/-- Carry out an operation up to the result of its statement. -/
def answerOperation (hooks : Hooks σ) (m : Moment) (op : Operation) (st : FlushState σ) :
    FlushStep σ Reply :=
  match obligations st.store op with
  | .error e => (.error e, st)
  | .ok obs =>
    match eachObligation (beforeStep hooks m) obs st with
    | (.error e, st) => (.error e, st)
    | (.ok (), st) =>
      let composed := composeOperation m st.store st.names op
      let st := { st with store := composed.store, names := composed.names }
      match composed.outcome with
      | .error e => (.error e, st)
      | .ok statement =>
        match executeStatement statement st with
        | (.error e, st) => (.error e, st)
        | (.ok result, st) => (.ok ⟨obs, statement, result⟩, st)

/-- Carry out the rest of an operation. -/
def settleOperation (hooks : Hooks σ) (m : Moment) (reply : Reply) (st : FlushState σ) :
    FlushStep σ (Option Statement × QueryResult) :=
  match eachObligation (afterStep hooks m reply.result) reply.obs st with
  | (.error e, st) => (.error e, st)
  | (.ok (), st) => (.ok (reply.statement, reply.result), releaseTouched reply.obs st)

variable {hooks : Hooks σ} {m : Moment} {op : Operation} {st st' : FlushState σ}

/-- An operation is its two parts, one after the other. In the first, entities are given variables
and hooks may edit them; ids and baselines are written in the second, where nothing is asked of the
connection. -/
theorem runOperation_eq (hooks : Hooks σ) (m : Moment) (op : Operation) (st : FlushState σ) :
    runOperation hooks m op st =
      match answerOperation hooks m op st with
      | (.error e, st) => (.error e, st)
      | (.ok reply, st) => settleOperation hooks m reply st := by
  rw [runOperation, answerOperation]
  cases obligations st.store op with
  | error e => rfl
  | ok obs =>
    dsimp only
    rcases eachObligation (beforeStep hooks m) obs st with ⟨_ | _, st₁⟩
    · rfl
    · dsimp only
      cases (composeOperation m st₁.store st₁.names op).outcome with
      | error e => rfl
      | ok statement =>
        dsimp only
        rcases executeStatement statement _ with ⟨_ | result, st₂⟩ <;> rfl

theorem answerOperation_inv {reply : Reply}
    (h : answerOperation hooks m op st = (.ok reply, st')) :
    ∃ st₁, obligations st.store op = .ok reply.obs ∧
      eachObligation (beforeStep hooks m) reply.obs st = (.ok (), st₁) ∧
      (composeOperation m st₁.store st₁.names op).outcome = .ok reply.statement ∧
      executeStatement reply.statement
          { st₁ with
            store := (composeOperation m st₁.store st₁.names op).store
            names := (composeOperation m st₁.store st₁.names op).names } =
        (.ok reply.result, st') := by
  rw [answerOperation] at h
  cases hobs : obligations st.store op with
  | error err => simp [hobs] at h
  | ok obs =>
    rcases hbefore : eachObligation (beforeStep hooks m) obs st with ⟨_ | _, st₁⟩
    · simp [hobs, hbefore] at h
    · cases houtcome : (composeOperation m st₁.store st₁.names op).outcome with
      | error err => simp [hobs, hbefore, houtcome] at h
      | ok statement =>
        simp only [hobs, hbefore, houtcome] at h
        split at h
        · cases h
        · rename_i result st₂ hexecuted
          obtain ⟨hreply, rfl⟩ := Prod.mk.inj h
          obtain rfl := Except.ok.inj hreply
          exact ⟨st₁, rfl, hbefore, houtcome, hexecuted⟩

/-- Steps are taken after those in front of them, unless one of these fails. -/
theorem eachObligation_append (step : Obligation → FlushState σ → FlushStep σ Unit)
    (obs obs' : List Obligation) (st : FlushState σ) : eachObligation step (obs ++ obs') st =
      match eachObligation step obs st with
      | (.error e, st) => (.error e, st)
      | (.ok (), st) => eachObligation step obs' st := by
  induction obs generalizing st with
  | nil => rfl
  | cons ob rest ih =>
    rw [List.cons_append, eachObligation, eachObligation]
    rcases step ob st with ⟨_ | _, st₁⟩
    · rfl
    · exact ih st₁

/-! ### Relations that an operation is in -/

/-- Every step that an operation takes up to the result of its statement is in the relation, for
obligations of the given kind. -/
structure AnswersWithin (hooks : Hooks σ) (m : Moment) (op : Operation) (P : Obligation → Prop)
    (R : FlushState σ → FlushState σ → Prop) : Prop where
  refl : ∀ st, R st st
  trans : ∀ a b c, R a b → R b c → R a c
  before : ∀ ob, P ob → ∀ st, R st (beforeStep hooks m ob st).2
  compose : ∀ st : FlushState σ, R st { st with
    store := (composeOperation m st.store st.names op).store
    names := (composeOperation m st.store st.names op).names }
  execute : ∀ statement st, R st (executeStatement statement st).2

/-- So is every step that it takes afterwards. -/
structure StepsWithin (hooks : Hooks σ) (m : Moment) (op : Operation) (P : Obligation → Prop)
    (R : FlushState σ → FlushState σ → Prop) : Prop extends AnswersWithin hooks m op P R where
  after : ∀ result ob, P ob → ∀ st, R st (afterStep hooks m result ob st).2
  release : ∀ ob, P ob → ∀ st, R st (st.modify ob.key Entity.releaseVariable)

section Within

variable {P : Obligation → Prop} {R : FlushState σ → FlushState σ → Prop}

theorem AnswersWithin.answer (h : AnswersWithin hooks m op P R)
    (hobs : ∀ obs, obligations st.store op = .ok obs → ∀ ob ∈ obs, P ob) :
    R st (answerOperation hooks m op st).2 := by
  rw [answerOperation]
  cases hobs' : obligations st.store op with
  | error e => exact h.refl st
  | ok obs =>
    have hbefore := eachObligation_rel h.refl h.trans
      (fun ob hob => h.before ob (hobs obs hobs' ob hob)) st
    dsimp only
    rcases hrun : eachObligation (beforeStep hooks m) obs st with ⟨_ | _, st₁⟩
    · rw [hrun] at hbefore
      exact hbefore
    · rw [hrun] at hbefore
      have hcomposed := h.trans _ _ _ hbefore (h.compose st₁)
      dsimp only
      cases (composeOperation m st₁.store st₁.names op).outcome with
      | error e => exact hcomposed
      | ok statement =>
        have hexecuted := h.trans _ _ _ hcomposed (h.execute statement _)
        dsimp only
        rcases hexecute : executeStatement statement _ with ⟨_ | result, st₂⟩
        · rw [hexecute] at hexecuted
          exact hexecuted
        · rw [hexecute] at hexecuted
          exact hexecuted

theorem StepsWithin.settle (h : StepsWithin hooks m op P R) {reply : Reply}
    (hobs : ∀ ob ∈ reply.obs, P ob) :
    R st (settleOperation hooks m reply st).2 := by
  have hafter := eachObligation_rel h.refl h.trans
    (fun ob hob => h.after reply.result ob (hobs ob hob)) st
  rw [settleOperation]
  rcases hrun : eachObligation (afterStep hooks m reply.result) reply.obs st with ⟨_ | _, st₁⟩
  · rw [hrun] at hafter
    exact hafter
  · rw [hrun] at hafter
    exact h.trans _ _ _ hafter (releaseTouched_rel h.refl h.trans
      (fun ob hob => h.release ob (hobs ob hob)) st₁)

/-- A relation that every step of an operation is in, the operation is in. What an operation does to
one entity, or to the connection, is shown by choosing a relation for it and looking at one step at
a time. -/
theorem StepsWithin.run (h : StepsWithin hooks m op P R)
    (hobs : ∀ obs, obligations st.store op = .ok obs → ∀ ob ∈ obs, P ob) :
    R st (runOperation hooks m op st).2 := by
  have hanswer := h.answer hobs
  rw [runOperation_eq]
  rcases hrun : answerOperation hooks m op st with ⟨_ | reply, st₁⟩
  · rw [hrun] at hanswer
    exact hanswer
  · rw [hrun] at hanswer
    obtain ⟨-, hreply, -⟩ := answerOperation_inv hrun
    exact h.trans _ _ _ hanswer (h.settle (hobs _ hreply))

end Within

/-! ### Turns -/

/-- An operation and the state in which it begins. -/
structure Turn (σ : Type) where
  op : Operation
  state : FlushState σ

/-- The operations that begin, in order: all of them up to the first that fails. -/
def turns (hooks : Hooks σ) (m : Moment) : List Operation → FlushState σ → List (Turn σ)
  | [], _ => []
  | op :: rest, st => ⟨op, st⟩ ::
    match runOperation hooks m op st with
    | (.error _, _) => []
    | (.ok _, st) => turns hooks m rest st

variable {ops : List Operation} {response : Response} {front back : List (Turn σ)} {t : Turn σ}

/-- Operations begin in order, and a failure ends the list. So the turns of a flush say how far it
has come. -/
theorem turns_prefix (ops : List Operation) (st : FlushState σ) :
    (turns hooks m ops st).map (·.op) <+: ops := by
  induction ops generalizing st with
  | nil => exact List.nil_prefix
  | cons op rest ih =>
    rw [turns, List.map_cons]
    refine List.cons_prefix_cons.mpr ⟨rfl, ?_⟩
    rcases runOperation hooks m op st with ⟨_ | _, st₁⟩
    · exact List.nil_prefix
    · exact ih st₁

/-- When all operations are carried out, each has had its turn. -/
theorem turns_of_ok {response' : Response}
    (h : runOperations hooks m ops response st = (.ok response', st')) :
    (turns hooks m ops st).map (·.op) = ops ∧
      ∀ t ∈ turns hooks m ops st, ∃ done st₁,
        runOperation hooks m t.op t.state = (.ok done, st₁) := by
  induction ops generalizing response st with
  | nil => exact ⟨rfl, nofun⟩
  | cons op rest ih =>
    rw [runOperations] at h
    rw [turns]
    rcases hop : runOperation hooks m op st with ⟨_ | ⟨statement, result⟩, st₁⟩
    · simp [hop] at h
    · simp only [hop] at h
      obtain ⟨hops, hturns⟩ := ih h
      exact ⟨congrArg (op :: ·) hops, List.forall_mem_cons.mpr ⟨⟨_, _, hop⟩, hturns⟩⟩

/-- A flush comes to the turn of an operation, and goes on from there. -/
theorem exists_of_turns (h : turns hooks m ops st = front ++ t :: back) (response : Response) :
    ∃ rest response', turns hooks m (t.op :: rest) t.state = t :: back ∧
      ops = front.map (·.op) ++ t.op :: rest ∧
      runOperations hooks m ops response st =
        runOperations hooks m (t.op :: rest) response' t.state := by
  induction ops generalizing response st front with
  | nil => simp [turns] at h
  | cons op rest ih =>
    rcases front with _ | ⟨first, front⟩
    · have hfirst := h
      rw [turns] at hfirst
      obtain ⟨rfl, -⟩ := List.cons.inj hfirst
      exact ⟨rest, response, h, rfl, rfl⟩
    · rw [turns] at h
      obtain ⟨rfl, hrest⟩ := List.cons.inj h
      rcases hop : runOperation hooks m op st with ⟨_ | ⟨statement, result⟩, st₁⟩
      · simp [hop] at hrest
      · simp only [hop] at hrest
        obtain ⟨rest', response', hturns, hops, hrun⟩ := ih hrest (response.add op statement result)
        refine ⟨rest', response', hturns, by rw [hops]; rfl, ?_⟩
        rw [runOperations, hop]
        exact hrun

/-- A relation that every turn is in, the flush is in, also when it stops at a failure: the turn of
the operation that failed is one of the turns. -/
theorem runOperations_rel {R : FlushState σ → FlushState σ → Prop} (hrefl : ∀ st, R st st)
    (htrans : ∀ a b c, R a b → R b c → R a c)
    (hturns : ∀ t ∈ turns hooks m ops st, R t.state (runOperation hooks m t.op t.state).2)
    (response : Response) : R st (runOperations hooks m ops response st).2 := by
  induction ops generalizing response st with
  | nil => exact hrefl st
  | cons op rest ih =>
    rw [turns] at hturns
    obtain ⟨hfirst, hrest⟩ := List.forall_mem_cons.mp hturns
    rw [runOperations]
    rcases hop : runOperation hooks m op st with ⟨_ | ⟨statement, result⟩, st₁⟩
    · rw [hop] at hfirst
      exact hfirst
    · rw [hop] at hfirst hrest
      exact htrans _ _ _ hfirst (ih hrest _)

/-- What every operation is in, a flush is in up to the beginning of each turn. -/
theorem rel_of_mem_turns {R : FlushState σ → FlushState σ → Prop} (hrefl : ∀ st, R st st)
    (htrans : ∀ a b c, R a b → R b c → R a c)
    (hop : ∀ op st, R st (runOperation hooks m op st).2) (ht : t ∈ turns hooks m ops st) :
    R st t.state := by
  induction ops generalizing st with
  | nil => exact absurd ht List.not_mem_nil
  | cons op rest ih =>
    rw [turns] at ht
    rcases List.mem_cons.mp ht with rfl | ht
    · exact hrefl st
    · have hfirst := hop op st
      rcases hrun : runOperation hooks m op st with ⟨_ | _, st₁⟩
      · simp [hrun] at ht
      · rw [hrun] at hfirst ht
        exact htrans _ _ _ hfirst (ih ht)

/-- So it is from the end of one turn on, if the later ones are. -/
theorem runOperations_rel_of_turns {R : FlushState σ → FlushState σ → Prop}
    (hrefl : ∀ st, R st st) (htrans : ∀ a b c, R a b → R b c → R a c)
    (h : turns hooks m ops st = front ++ t :: back)
    (hback : ∀ t' ∈ back, R t'.state (runOperation hooks m t'.op t'.state).2)
    (response : Response) :
    R (runOperation hooks m t.op t.state).2 (runOperations hooks m ops response st).2 := by
  obtain ⟨rest, response', hturns, -, hrun⟩ := exists_of_turns h response
  rw [hrun, runOperations]
  rw [turns] at hturns
  rcases hop : runOperation hooks m t.op t.state with ⟨_ | ⟨statement, result⟩, st₁⟩
  · exact hrefl st₁
  · simp only [hop, List.cons.injEq] at hturns
    obtain ⟨-, rfl⟩ := hturns
    exact runOperations_rel hrefl htrans hback _

end GraphMapping
