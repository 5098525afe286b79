import Mathlib.Data.List.Nodup
import Mathlib.Data.List.Pairwise
import GraphMapping.Proofs.Work.Evolution

/-!
# What variables stand for

Every statement that a flush executes is composed from a store and names, which the hooks before it
leave. In the statement a variable stands for the stored entity that has it when the statement is
composed, or for the bare id it was made up for. Whether the same variable could stand for something
else in another statement of the flush is a question about two moments of the flush, so the
executions are listed together with what they were composed from.

Two executions are related by how names evolve in between. A variable that was handed out by the
first one is not made up again by the second, and stays with its entity. The parameters of one type
are numbered onward, so that those of the second execution have greater numbers.

## Main definitions

* `Execution`, `executions`: the statements that carrying out operations executes, with what each is
  composed from.
* `Execution.mentioned`: the variables that a statement mentions.
* `Execution.Denotes`, `Execution.Agree`: what a variable stands for, and statements in which that
  is the same.
* `Execution.Sound`, `Execution.Chain`: an execution, and a sequence of executions in a flush.

## Main results

* `Execution.Sound.exists_denotes`: every variable that is mentioned stands for something.
* `Execution.Chain.agree`: and for one thing only.
* `Execution.Chain.nodup_params`: no parameter is bound twice.
* `executed_runOperations`, `statements_runOperations`: the executions are what the journal and the
  response say.
* `chain_executions`: they are a chain.
-/

namespace GraphMapping

/-! ### Variables of a statement -/

/-- The variables that the clauses mention. -/
def Clauses.mentioned (clauses : Clauses) : List String :=
  (clauses.matched ++ clauses.created).flatMap Pattern.names ++ clauses.assigned.map (·.name) ++
    clauses.conditions.map (·.name) ++ clauses.returned

/-- The variables that the targets mention. -/
def Deletion.mentioned (deletion : Deletion) : List String :=
  deletion.targets.flatMap fun target => target.1.names ++ [target.2.name]

/-- A statement with what it was composed from. -/
structure Execution where
  op : Operation
  store : Store
  names : Names
  statement : Statement

namespace Execution

variable (m : Moment) (x : Execution)

/-- What composing the statement led to. -/
def composed : Composed (Option Statement) := composeOperation m x.store x.names x.op

/-- The draft of the statement that saves an entity. -/
def draft : Draft := Batch.draft m x.store x.names [x.op.key]

/-- The variables that the statement mentions. -/
def mentioned : List String :=
  match x.op.kind with
  | .save => (x.draft m).clauses.mentioned
  | .delete _ =>
    ((collectDeletion x.store x.names {} [x.op.key]).outcome.toOption.elim [] Deletion.mentioned)

/-- What a variable stands for in the statement: the stored entity that has it when the statement
has been composed, or the bare id that it was made up for. -/
inductive Denotes (name : String) : Endpoint → Prop
  | entity {key : EntityKey} (h : (x.composed m).store.nameOf? key = some name) :
    Denotes name (.entity key)
  | id {i : Int64} (hsave : x.op.kind = .save) (h : (i, name) ∈ (x.draft m).boundIds) :
    Denotes name (.id i)

/-- A variable that is used in both statements stands for the same thing in them. -/
def Agree (y : Execution) : Prop :=
  ∀ name a b, x.Denotes m name a → y.Denotes m name b → a = b

/-- The statement is what was composed, from a store whose variables were handed out to distinct
entities. -/
structure Sound : Prop where
  outcome : (x.composed m).outcome = .ok (some x.statement)
  named : x.store.NamedBy x.names

/-- Between the executions variables were only handed out anew and taken back. -/
def Before (y : Execution) : Prop :=
  Evolves (x.composed m).store (x.composed m).names y.store y.names

variable {m x} {y : Execution} {name : String} {a b : Endpoint}

instance : Std.Symm (Agree m) :=
  ⟨fun _ _ hagree name a b ha hb => (hagree name b a hb ha).symm⟩

/-! ### One execution -/

namespace Sound

theorem evolves (h : x.Sound m) :
    Evolves x.store x.names (x.composed m).store (x.composed m).names :=
  composeOperation_evolves m x.op h.named

theorem named_composed (h : x.Sound m) : (x.composed m).store.NamedBy (x.composed m).names :=
  h.evolves.named h.named

theorem exists_writes (h : x.Sound m) (hkind : x.op.kind = .save) :
    ∃ parts, (x.draft m).Writes m x.store x.names [x.op.key] parts ∧
      (x.composed m).store = (x.draft m).store ∧ (x.composed m).names = (x.draft m).names ∧
      x.statement = (x.draft m).clauses.toStatement := by
  have houtcome := h.outcome
  simp only [composed, composeOperation, hkind] at houtcome ⊢
  cases hcheck : Batch.check x.store [x.op.key] with
  | error err => simp [composeSave, hcheck, Except.map] at houtcome
  | ok u =>
    obtain ⟨parts, hwrites⟩ := Batch.exists_writes (m := m) h.named hcheck
    rw [Batch.composeSave_eq hcheck] at houtcome ⊢
    refine ⟨parts, hwrites, rfl, rfl, ?_⟩
    exact (Option.some.inj (Except.ok.inj houtcome)).symm

theorem exists_collects (h : x.Sound m) {detach : Bool} (hkind : x.op.kind = .delete detach) :
    ∃ deletion : Deletion,
      deletion.Collects x.store x.names (x.composed m).store (x.composed m).names ∧
      x.mentioned m = deletion.mentioned ∧ x.statement.params = deletion.params ∧
      x.statement.returns = [] := by
  have houtcome := h.outcome
  obtain ⟨deletion, hcollects, honly⟩ := collectDeletion_collects (.start h.named) [x.op.key]
  simp only [composed, composeOperation, hkind, composeDelete, mentioned] at houtcome ⊢
  cases hcollect : (collectDeletion x.store x.names {} [x.op.key]).outcome with
  | error err => simp [hcollect, Except.map] at houtcome
  | ok d =>
    obtain rfl := honly d hcollect
    rw [hcollect, Except.map, Except.ok.injEq, Deletion.toStatement?] at houtcome
    split at houtcome
    · cases houtcome
    · rw [← Option.some.inj houtcome]
      exact ⟨d, hcollects, rfl, rfl, rfl⟩

/-- The variable of a part stands for what the part mentions. -/
theorem denotes_part (hkind : x.op.kind = .save) {parts : List Part}
    (hwrites : (x.draft m).Writes m x.store x.names [x.op.key] parts)
    (hstore : (x.composed m).store = (x.draft m).store) {p : Part} (hp : p ∈ parts) :
    x.Denotes m p.name p.mention := by
  cases hmention : p.mention with
  | entity key => exact .entity (hstore ▸ hwrites.follows.entity p hp key hmention)
  | id i => exact .id hkind (hwrites.follows.boundIds ▸ Part.mem_bound hp hmention)

/-- The variables of a draft are those of its parts. -/
theorem exists_part_of_mem_mentioned {parts : List Part}
    (hwrites : (x.draft m).Writes m x.store x.names [x.op.key] parts)
    (hname : name ∈ (x.draft m).clauses.mentioned) : ∃ p ∈ parts, p.name = name := by
  have hfollows := hwrites.follows
  simp only [Clauses.mentioned, List.mem_append, or_assoc] at hname
  rcases hname with hpattern | hassigned | hcondition | hreturned
  · obtain ⟨pattern, hpattern, hname⟩ := List.mem_flatMap.mp hpattern
    exact hwrites.drawn.exists_part hpattern hname
  · obtain ⟨assignment, hassignment, rfl⟩ := List.mem_map.mp hassigned
    rw [hfollows.assigned] at hassignment
    obtain ⟨p, hp, hmem⟩ := List.mem_flatMap.mp hassignment
    exact ⟨p, hp, (Part.name_of_mem_assigned hmem).symm⟩
  · obtain ⟨condition, hcond, rfl⟩ := List.mem_map.mp hcondition
    rw [hfollows.conditions] at hcond
    obtain ⟨p, hp, hmem⟩ := List.mem_flatMap.mp hcond
    exact ⟨p, hp, (Part.name_of_mem_conditions hmem).symm⟩
  · rw [hfollows.returned] at hreturned
    obtain ⟨p, hp, hmem⟩ := List.mem_flatMap.mp hreturned
    refine ⟨p, hp, ?_⟩
    cases hmention : p.mention with
    | entity key => simpa [Part.returned, hmention, eq_comm] using hmem
    | id i => simp [Part.returned, hmention] at hmem

/-- Every variable that the statement mentions stands for something, a stored entity or a bare id.
By `denotes_unique` there is only one such thing. -/
theorem exists_denotes (h : x.Sound m) (hname : name ∈ x.mentioned m) :
    ∃ a, x.Denotes m name a := by
  cases hkind : x.op.kind with
  | save =>
    obtain ⟨parts, hwrites, hstore, -, -⟩ := h.exists_writes hkind
    rw [mentioned, hkind] at hname
    obtain ⟨p, hp, rfl⟩ := exists_part_of_mem_mentioned hwrites hname
    exact ⟨p.mention, denotes_part hkind hwrites hstore hp⟩
  | delete detach =>
    obtain ⟨deletion, hcollects, hmentioned, -, -⟩ := h.exists_collects hkind
    rw [hmentioned] at hname
    obtain ⟨target, htarget, hmem⟩ := List.mem_flatMap.mp hname
    obtain ⟨key, -, hkey, -⟩ := hcollects.target target htarget
    have hsame : name = target.2.name := by
      rw [(hcollects.pattern target htarget).1] at hmem
      simpa using hmem
    exact ⟨.entity key, .entity (hsame ▸ hkey)⟩

/-- The variables that the statement returns stand for stored entities, and are mentioned. -/
theorem denotes_of_mem_returns (h : x.Sound m) (hname : name ∈ x.statement.returns) :
    name ∈ x.mentioned m ∧ ∃ key, x.Denotes m name (.entity key) := by
  cases hkind : x.op.kind with
  | save =>
    obtain ⟨parts, hwrites, hstore, -, hstatement⟩ := h.exists_writes hkind
    have hreturned : name ∈ (x.draft m).clauses.returned := by
      rw [hstatement] at hname
      exact hname
    refine ⟨?_, ?_⟩
    · rw [mentioned, hkind]
      exact List.mem_append_right _ hreturned
    · rw [hwrites.follows.returned] at hreturned
      obtain ⟨p, hp, hmem⟩ := List.mem_flatMap.mp hreturned
      have hdenotes := denotes_part hkind hwrites hstore hp
      cases hmention : p.mention with
      | entity key =>
        have hsame : name = p.name := by simpa [Part.returned, hmention] using hmem
        exact ⟨key, hsame ▸ hmention ▸ hdenotes⟩
      | id i => simp [Part.returned, hmention] at hmem
  | delete detach =>
    obtain ⟨deletion, -, -, -, hnone⟩ := h.exists_collects hkind
    rw [hnone] at hname
    exact absurd hname List.not_mem_nil

/-- A variable that stands for a bare id is fresh, and no entity has it. -/
theorem fresh_of_denotes_id (h : x.Sound m) {i : Int64} (hdenotes : x.Denotes m name (.id i)) :
    (x.composed m).names.Issued name ∧ ¬ x.names.Issued name ∧
      ∀ key, (x.composed m).store.nameOf? key ≠ some name := by
  cases hdenotes with
  | id hkind hbound =>
    obtain ⟨parts, hwrites, hstore, hnames, -⟩ := h.exists_writes hkind
    rw [hwrites.follows.boundIds] at hbound
    obtain ⟨p, hp, hmention, rfl⟩ := Part.mention_of_mem_bound hbound
    rw [hstore, hnames]
    exact hwrites.follows.bare p hp i hmention

/-- What a variable stands for is known by names that have been handed out. -/
theorem issued_of_denotes (h : x.Sound m) (hdenotes : x.Denotes m name a) :
    (x.composed m).names.Issued name := by
  cases a with
  | id i => exact (h.fresh_of_denotes_id hdenotes).1
  | entity key => cases hdenotes with
    | entity hname => exact h.named_composed.issued key name hname

/-- In one statement a variable stands for one thing. -/
theorem denotes_unique (h : x.Sound m) (ha : x.Denotes m name a) (hb : x.Denotes m name b) :
    a = b := by
  cases ha with
  | entity hname =>
    cases hb with
    | entity hname' => rw [h.named_composed.distinct _ _ _ hname hname']
    | id hkind hbound => exact absurd hname ((h.fresh_of_denotes_id (.id hkind hbound)).2.2 _)
  | id hkind hbound =>
    cases hb with
    | entity hname' => exact absurd hname' ((h.fresh_of_denotes_id (.id hkind hbound)).2.2 _)
    | id hkind' hbound' =>
      obtain ⟨parts, hwrites, -, -, -⟩ := h.exists_writes hkind
      rw [hwrites.follows.boundIds] at hbound hbound'
      obtain ⟨p, hp, hmention, hpname⟩ := Part.mention_of_mem_bound hbound
      obtain ⟨p', hp', hmention', hpname'⟩ := Part.mention_of_mem_bound hbound'
      have hsame : p = p' := List.inj_on_of_nodup_map hwrites.follows.distinct hp hp'
        (hpname.trans hpname'.symm)
      rw [← hmention, ← hmention', hsame]

/-- A parameter is spelled after a variable, with a number of the type of what that stands for which
was handed out for this statement. -/
theorem exists_number (h : x.Sound m) {param : String} (hparam : param ∈ x.statement.params.names) :
    ∃ name a field n, x.Denotes m name a ∧ param = Names.paramName name field n ∧
      x.names.paramCount (a.typeName x.store) ≤ n ∧
      n < (x.composed m).names.paramCount (a.typeName x.store) := by
  cases hkind : x.op.kind with
  | save =>
    obtain ⟨parts, hwrites, hstore, hnames, hstatement⟩ := h.exists_writes hkind
    have hfollows := hwrites.follows
    have hbound : param ∈ (x.draft m).clauses.params.toList.map Prod.fst := by
      rw [hstatement] at hparam
      exact hparam
    obtain ⟨pair, hpair, rfl⟩ := List.mem_map.mp hbound
    obtain ⟨p, hp, hmem⟩ := List.mem_flatMap.mp (hfollows.params.mem_iff.mp hpair)
    obtain ⟨field, n, hle, hlt, hspelled⟩ := Part.param_of_mem hmem
    obtain ⟨hfirst, hlast⟩ := hfollows.numbered p hp
    refine ⟨p.name, p.mention, field, n, denotes_part hkind hwrites hstore hp, hspelled,
      hfirst.trans hle, ?_⟩
    rw [hnames]
    exact hlt.trans_le hlast
  | delete detach =>
    obtain ⟨deletion, hcollects, -, hparams, -⟩ := h.exists_collects hkind
    rw [hparams] at hparam
    obtain ⟨target, htarget, rfl⟩ := List.mem_map.mp (hcollects.params.mem_iff.mp hparam)
    obtain ⟨key, n, hname, hle, hlt, hspelled⟩ := hcollects.target target htarget
    exact ⟨target.2.name, .entity key, "id", n, .entity hname, hspelled, hle, hlt⟩

end Sound

/-! ### Two executions -/

/-- A variable stands for the same in a later execution, if it is used there. -/
theorem Before.denotes_unique (h : x.Before m y) (hx : x.Sound m) (hy : y.Sound m)
    (ha : x.Denotes m name a) (hb : y.Denotes m name b) : a = b := by
  have hissued := hx.issued_of_denotes ha
  cases hb with
  | id hkind hbound =>
    -- a bare id gets a variable that has not been handed out before
    have hfresh := (hy.fresh_of_denotes_id (.id hkind hbound)).2.1
    exact absurd (h.issued name hissued) hfresh
  | entity hname =>
    have hown := (Evolves.trans h hy.evolves).nameOf?_of_issued hname hissued
    exact hx.denotes_unique ha (.entity hown)

/-- Later executions bind other parameters. -/
theorem Before.disjoint_params (h : x.Before m y) (hx : x.Sound m) (hy : y.Sound m) :
    List.Disjoint x.statement.params.names y.statement.params.names := by
  intro param hparam hparam'
  obtain ⟨name, a, field, n, ha, hspelled, -, hlt⟩ := hx.exists_number hparam
  obtain ⟨name', b, field', n', hb, hspelled', hle, -⟩ := hy.exists_number hparam'
  obtain ⟨rfl, rfl⟩ := Names.paramName_inj (hx.issued_of_denotes ha).isStem
    (hy.issued_of_denotes hb).isStem (hspelled.symm.trans hspelled')
  obtain rfl := h.denotes_unique hx hy ha hb
  -- the numbers of the type have only grown in between
  have htype : a.typeName y.store = a.typeName x.store :=
    (Evolves.trans hx.evolves h).typeName a
  have hgrown := h.counted (a.typeName x.store)
  rw [htype] at hle
  omega

/-! ### All executions of a flush -/

/-- The executions follow each other in a flush. -/
structure Chain (m : Moment) (xs : List Execution) : Prop where
  sound : ∀ x ∈ xs, x.Sound m
  before : xs.Pairwise fun x y => x.Before m y

namespace Chain

variable {xs : List Execution}

/-- Whatever statements of a flush use a variable, it stands for one thing. Variables are numbered
through the whole flush, and taking one back from its entity does not make its number free again. -/
theorem agree (h : Chain m xs) (hx : x ∈ xs) (hy : y ∈ xs) : x.Agree m y := by
  have hself : ∀ x ∈ xs, x.Agree m x := fun x hx name a b ha hb =>
    (h.sound x hx).denotes_unique ha hb
  have hpairwise : xs.Pairwise (Agree m) := h.before.imp_of_mem fun hx hy hbefore name a b ha hb =>
    hbefore.denotes_unique (h.sound _ hx) (h.sound _ hy) ha hb
  exact hpairwise.forall_of_forall hself hx hy

/-- No parameter is bound twice in a flush. Parameters are numbered for each type, and the count
goes on from one statement to the next. -/
theorem nodup_params (h : Chain m xs) :
    ((xs.map (·.statement)).flatMap (·.params.names)).Nodup := by
  rw [List.flatMap_map, List.nodup_flatMap]
  refine ⟨fun x _ => x.statement.params.nodup_names, ?_⟩
  exact h.before.imp_of_mem fun hx hy hbefore =>
    hbefore.disjoint_params (h.sound _ hx) (h.sound _ hy)

end Chain

end Execution

/-! ### What a flush executes -/

section Flush

variable {σ : Type} (hooks : Hooks σ) (m : Moment)

/-- The execution of an operation, if it gets as far. -/
def execution? (op : Operation) (st : FlushState σ) : Option Execution :=
  match obligations st.store op with
  | .error _ => none
  | .ok obs =>
    match eachObligation (beforeStep hooks m) obs st with
    | (.error _, _) => none
    | (.ok (), st) =>
      (composeOperation m st.store st.names op).outcome.toOption.join.map
        (Execution.mk op st.store st.names)

/-- The executions of operations in order, up to the first that fails. -/
def executions : List Operation → FlushState σ → List Execution
  | [], _ => []
  | op :: rest, st =>
    (execution? hooks m op st).toList ++
      match runOperation hooks m op st with
      | (.error _, _) => []
      | (.ok _, st) => executions rest st

variable {hooks m} {st st' : FlushState σ} {op : Operation} (hhooks : hooks.Restrained)

theorem execution?_eq_some {x : Execution} (h : execution? hooks m op st = some x) :
    ∃ obs st₁, obligations st.store op = .ok obs ∧
      eachObligation (beforeStep hooks m) obs st = (.ok (), st₁) ∧
      x.op = op ∧ x.store = st₁.store ∧ x.names = st₁.names ∧
      (composeOperation m st₁.store st₁.names op).outcome = .ok (some x.statement) := by
  rw [execution?] at h
  cases hobs : obligations st.store op with
  | error err => simp [hobs] at h
  | ok obs =>
    rcases hbefore : eachObligation (beforeStep hooks m) obs st with ⟨_ | _, st₁⟩
    · simp [hobs, hbefore] at h
    · cases houtcome : (composeOperation m st₁.store st₁.names op).outcome with
      | error err => simp [hobs, hbefore, houtcome, Except.toOption] at h
      | ok statement =>
        obtain ⟨s, hs, rfl⟩ :
            ∃ s, statement = some s ∧ Execution.mk op st₁.store st₁.names s = x := by
          simpa [hobs, hbefore, houtcome, Except.toOption] using h
        exact ⟨obs, st₁, rfl, hbefore, rfl, rfl, rfl, houtcome.trans (congrArg Except.ok hs)⟩

include hhooks

/-- After composing, an operation that is carried out hands out nothing any more. -/
theorem runOperation_evolves_after {done : Option Statement × QueryResult}
    (h : runOperation hooks m op st = (.ok done, st')) :
    ∃ obs st₁, obligations st.store op = .ok obs ∧
      eachObligation (beforeStep hooks m) obs st = (.ok (), st₁) ∧
      (composeOperation m st₁.store st₁.names op).outcome = .ok done.1 ∧
      Evolves (composeOperation m st₁.store st₁.names op).store
        (composeOperation m st₁.store st₁.names op).names st'.store st'.names := by
  obtain ⟨statement, result⟩ := done
  obtain ⟨obs, st₁, st₂, st₃, hobs, hbefore, houtcome, hexecute, hafter, rfl⟩ := runOperation_inv h
  refine ⟨obs, st₁, hobs, hbefore, houtcome, ?_⟩
  obtain ⟨hstore, hnames⟩ := executeStatement_store hexecute
  have hsteps : st₂.Steady st₃ := by
    have heach := eachObligation_steady (afterStep_steady (m := m) hhooks result) obs st₂
    rwa [hafter] at heach
  have hevolves := (hsteps.trans (releaseTouched_steady obs st₃)).evolves
  rwa [hstore, hnames] at hevolves

theorem beforeSteps_evolves {obs : List Obligation} {outcome : Except MapperError Unit}
    (h : eachObligation (beforeStep hooks m) obs st = (outcome, st')) :
    Evolves st.store st.names st'.store st'.names := by
  have heach := eachObligation_steady (beforeStep_steady (m := m) hhooks) obs st
  rw [h] at heach
  exact heach.evolves

theorem runOperation_evolves {done : Option Statement × QueryResult}
    (hnamed : st.store.NamedBy st.names) (h : runOperation hooks m op st = (.ok done, st')) :
    Evolves st.store st.names st'.store st'.names := by
  obtain ⟨obs, st₁, -, hbefore, -, hafter⟩ := runOperation_evolves_after hhooks h
  have hsteps := beforeSteps_evolves hhooks hbefore
  exact (hsteps.trans (composeOperation_evolves m op (hsteps.named hnamed))).trans hafter

/-- An execution is composed to what the hooks before it leave, and after it variables are only
taken back. -/
theorem execution?_spec {x : Execution} (hnamed : st.store.NamedBy st.names)
    (h : execution? hooks m op st = some x) :
    x.Sound m ∧ Evolves st.store st.names x.store x.names ∧
      ∀ done st', runOperation hooks m op st = (.ok done, st') →
        Evolves (x.composed m).store (x.composed m).names st'.store st'.names := by
  obtain ⟨obs, st₁, hobs, hbefore, hop, hstore, hnames, houtcome⟩ := execution?_eq_some h
  have hsteps := beforeSteps_evolves hhooks hbefore
  have hcomposed : x.composed m = composeOperation m st₁.store st₁.names op := by
    rw [Execution.composed, hop, hstore, hnames]
  rw [hcomposed, hstore, hnames]
  refine ⟨⟨hcomposed ▸ houtcome, hstore ▸ hnames ▸ hsteps.named hnamed⟩, hsteps, ?_⟩
  intro done st' hrun
  obtain ⟨obs', st₁', hobs', hbefore', -, hafter⟩ := runOperation_evolves_after hhooks hrun
  obtain rfl := Except.ok.inj (hobs.symm.trans hobs')
  obtain rfl := (Prod.mk.inj (hbefore.symm.trans hbefore')).2
  exact hafter

/-- The executions are a chain, which begins after the given state. Everything about several
statements of a flush follows from this, without going back to how operations are carried out. -/
theorem chain_executions (hnamed : st.store.NamedBy st.names) (ops : List Operation) :
    Execution.Chain m (executions hooks m ops st) ∧
      ∀ x ∈ executions hooks m ops st, Evolves st.store st.names x.store x.names := by
  induction ops generalizing st with
  | nil =>
    exact ⟨⟨fun _ hx => absurd hx List.not_mem_nil, .nil⟩,
      fun _ hx => absurd hx List.not_mem_nil⟩
  | cons op rest ih =>
    have hfirst : ∀ x ∈ (execution? hooks m op st).toList, execution? hooks m op st = some x :=
      fun x hx => Option.mem_toList.mp hx
    have hsingle : (execution? hooks m op st).toList.Pairwise (Execution.Before m) := by
      cases execution? hooks m op st <;> simp
    rw [executions]
    rcases hrun : runOperation hooks m op st with ⟨_ | done, st₁⟩
    · rw [List.append_nil]
      exact ⟨⟨fun x hx => (execution?_spec hhooks hnamed (hfirst x hx)).1, hsingle⟩,
        fun x hx => (execution?_spec hhooks hnamed (hfirst x hx)).2.1⟩
    · have hevolves := runOperation_evolves hhooks hnamed hrun
      obtain ⟨⟨hsound, hbefore⟩, hlater⟩ := ih (hevolves.named hnamed)
      refine ⟨⟨fun x hx => ?_, List.pairwise_append.mpr ⟨hsingle, hbefore, fun x hx y hy => ?_⟩⟩,
        fun x hx => ?_⟩
      · rcases List.mem_append.mp hx with hx | hx
        · exact (execution?_spec hhooks hnamed (hfirst x hx)).1
        · exact hsound x hx
      · have hafter := (execution?_spec hhooks hnamed (hfirst x hx)).2.2 done st₁ hrun
        exact hafter.trans (hlater y hy)
      · rcases List.mem_append.mp hx with hx | hx
        · exact (execution?_spec hhooks hnamed (hfirst x hx)).2.1
        · exact hevolves.trans (hlater x hx)

omit hhooks in
theorem executed_executeStatement (statement : Option Statement) (st : FlushState σ) :
    (executeStatement statement st).2.executed = st.executed ++ statement.toList := by
  cases statement with
  | none => exact (List.append_nil _).symm
  | some s => simp [executeStatement, FlushState.note, FlushState.executed, Event.statement?]

/-- An operation executes the statement of its execution and nothing else, even if it fails. -/
theorem executed_runOperation (op : Operation) (st : FlushState σ) :
    (runOperation hooks m op st).2.executed =
      st.executed ++ ((execution? hooks m op st).map (·.statement)).toList := by
  rw [runOperation, execution?]
  cases hobs : obligations st.store op with
  | error err => exact (List.append_nil _).symm
  | ok obs =>
    have hbefore := eachObligation_steady (beforeStep_steady (m := m) hhooks) obs st
    dsimp only
    rcases hrun : eachObligation (beforeStep hooks m) obs st with ⟨_ | _, st₁⟩
    · rw [hrun] at hbefore
      exact hbefore.executed.trans (List.append_nil _).symm
    · rw [hrun] at hbefore
      dsimp only
      cases houtcome : (composeOperation m st₁.store st₁.names op).outcome with
      | error err => exact hbefore.executed.trans (List.append_nil _).symm
      | ok statement =>
        have hexecute := executed_executeStatement statement
          { st₁ with
            store := (composeOperation m st₁.store st₁.names op).store
            names := (composeOperation m st₁.store st₁.names op).names }
        have hadded : (((Except.ok statement : Except MapperError _).toOption.join.map
            (Execution.mk op st₁.store st₁.names)).map Execution.statement) = statement := by
          cases statement <;> rfl
        rw [hadded]
        have hst : st₁.executed = st.executed := hbefore.executed
        dsimp only
        rcases hrun₂ : executeStatement statement _ with ⟨_ | result, st₂⟩
        · rw [hrun₂] at hexecute
          exact hexecute.trans (congrArg (· ++ _) hst)
        · rw [hrun₂] at hexecute
          have hafter := eachObligation_steady (afterStep_steady (m := m) hhooks result) obs st₂
          dsimp only
          rcases hrun₃ : eachObligation (afterStep hooks m result) obs st₂ with ⟨_ | _, st₃⟩
          · rw [hrun₃] at hafter
            exact hafter.executed.trans (hexecute.trans (congrArg (· ++ _) hst))
          · rw [hrun₃] at hafter
            have hreleased := hafter.trans (releaseTouched_steady obs st₃)
            exact hreleased.executed.trans (hexecute.trans (congrArg (· ++ _) hst))

/-- Carrying out operations executes the statements of their executions, in order, and nothing
else, even if one fails. -/
theorem executed_runOperations (ops : List Operation) (response : Response) (st : FlushState σ) :
    (runOperations hooks m ops response st).2.executed =
      st.executed ++ (executions hooks m ops st).map (·.statement) := by
  induction ops generalizing response st with
  | nil => exact (List.append_nil _).symm
  | cons op rest ih =>
    have hop := executed_runOperation (m := m) hhooks op st
    rw [runOperations, executions, List.map_append, ← List.append_assoc, ← Option.toList_map, ← hop]
    rcases runOperation hooks m op st with ⟨_ | ⟨statement, result⟩, st₁⟩
    · exact (List.append_nil _).symm
    · exact ih _ st₁

omit hhooks in
/-- An operation that is carried out reports the statement of its execution. -/
theorem execution?_of_ok {done : Option Statement × QueryResult}
    (h : runOperation hooks m op st = (.ok done, st')) :
    (execution? hooks m op st).map (·.statement) = done.1 := by
  obtain ⟨statement, result⟩ := done
  obtain ⟨obs, st₁, -, -, hobs, hbefore, houtcome, -⟩ := runOperation_inv h
  rw [execution?, hobs]
  simp only [hbefore, houtcome]
  cases statement <;> rfl

omit hhooks in
/-- When all operations are carried out, the response lists the statements of the executions. -/
theorem statements_runOperations {ops : List Operation} {response response' : Response}
    (h : runOperations hooks m ops response st = (.ok response', st')) :
    response'.statements =
      response.statements ++ (executions hooks m ops st).map (·.statement) := by
  induction ops generalizing response st with
  | nil =>
    obtain ⟨heq, -⟩ := Prod.mk.inj h
    rw [← Except.ok.inj heq]
    exact (List.append_nil _).symm
  | cons op rest ih =>
    rw [runOperations] at h
    rw [executions, List.map_append, ← Option.toList_map]
    rcases hop : runOperation hooks m op st with ⟨_ | ⟨statement, result⟩, st₁⟩
    · simp [hop] at h
    · simp only [hop] at h
      rw [execution?_of_ok hop, ← List.append_assoc]
      exact ih h

end Flush

end GraphMapping
