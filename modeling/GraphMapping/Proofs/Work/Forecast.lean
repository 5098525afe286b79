import GraphMapping.Proofs.Statement.Locality
import GraphMapping.Proofs.Work.Identity
import GraphMapping.Proofs.Work.Restoration

/-!
# Previews and flushes

A preview composes the pending operations one after the other, and so does a flush. But a flush
settles what an operation touches before it composes the next one: entities have got ids and other
data by then, and their variables have been taken back. A preview does nothing of the kind.

An operation is composed from what it touches. If no other operation touches it, then it is the same
in the flush as in the preview, and so is the statement. If two operations touch the same entity,
their statements use the same variable for it in the preview. In a flush no two statements use the
same variable for anything.

## Main definitions

* `Operation.Apart`: the operations touch no entity both.
* `Statement.Uses`: the statement returns a variable or has a parameter spelled after it.
* `Statement.Apart`: the statements use no variable both.

## Main results

* `composeOperation_modify`: an operation is composed from what it touches.
* `outcome_composeAll_of_apart`: the preview of operations that touch nothing in common.
* `executions_apart`: statements of a flush use no variable in common.
* `apart_of_composeAll`: the statements of a preview do, if operations touch something in common.
-/

namespace GraphMapping

variable {m : Moment} {store store' : Store} {names : Names} {op : Operation}
  {key other : EntityKey} {ops : List Operation} {statements : List Statement} {name : String}
  {s : Statement}

/-! ### Composing what is touched -/

/-- What an operation touches depends on the entity that it is on. -/
theorem Operation.touches_modify {f : Entity → Entity} (h : op.key ≠ other) :
    op.Touches (store.modify other f) key ↔ op.Touches store key := by
  rw [Touches, Touches, Targets, Targets, Store.get?_modify_of_ne store h]

/-- A change of an entity that the operation does not touch leaves its statement as it is. So what
one operation of a flush does to its entities cannot be seen in the statements of others, unless
they share an entity. -/
theorem composeOperation_modify {f : Entity → Entity} (h : ¬ op.Touches store other) :
    composeOperation m (store.modify other f) names op =
      { composeOperation m store names op with
        store := (composeOperation m store names op).store.modify other f } := by
  have hne : op.key ≠ other := fun heq => h (.inl heq.symm)
  rw [composeOperation, composeOperation]
  cases hkind : op.kind with
  | delete detach => exact composeDelete_modify hne detach
  | save =>
    have hends : ∀ e, store.get? op.key = some e → ∀ role,
        e.endpoint? role ≠ some (.entity other) := fun e he role hend =>
      h (.inr ⟨hkind, .inr ⟨e, he, Entity.mem_endpointKeys.mpr ⟨role, hend⟩⟩⟩)
    simp only [composeSave_modify hne hends]

/-- Composing leaves what operations touch as it is. -/
theorem touches_composeOperation (m : Moment) (store : Store) (names : Names)
    (op op' : Operation) (key : EntityKey) :
    op'.Touches (composeOperation m store names op).store key ↔ op'.Touches store key :=
  Operation.touches_congr (composeOperation_hands_out m store names op).shape

theorem composeAll_modify {f : Entity → Entity} (h : ∀ op ∈ ops, ¬ op.Touches store other) :
    composeAll m (store.modify other f) names ops =
      { composeAll m store names ops with
        store := (composeAll m store names ops).store.modify other f } := by
  induction ops generalizing store names with
  | nil => rfl
  | cons op rest ih =>
    obtain ⟨hfirst, hrest⟩ := List.forall_mem_cons.mp h
    rw [composeAll, composeAll, composeOperation_modify hfirst]
    dsimp only
    cases (composeOperation m store names op).outcome with
    | error err => rfl
    | ok statement =>
      dsimp only
      rw [ih fun op' hop' htouches =>
        hrest op' hop' ((touches_composeOperation m store names op op' other).mp htouches)]

theorem outcome_composeAll_modifyEach {f : Entity → Entity} {keys : List EntityKey}
    (h : ∀ key ∈ keys, ∀ op ∈ ops, ¬ op.Touches store key) :
    (composeAll m (store.modifyEach keys f) names ops).outcome =
      (composeAll m store names ops).outcome := by
  induction keys generalizing store with
  | nil => rfl
  | cons key rest ih =>
    obtain ⟨hfirst, hrest⟩ := List.forall_mem_cons.mp h
    have hmodified : (composeAll m ((store.modify key f).modifyEach rest f) names ops).outcome =
        (composeAll m (store.modify key f) names ops).outcome :=
      ih fun key' hkey' op hop htouches => hrest key' hkey' op hop
        ((Operation.touches_modify fun heq => hfirst op hop (.inl heq.symm)).mp htouches)
    refine hmodified.trans ?_
    rw [composeAll_modify hfirst]

/-- Composing at another moment, when no data depends on it. -/
theorem composeAll_congr {m' : Moment} (h : store.Timeless m m') (names : Names)
    (ops : List Operation) : composeAll m' store names ops = composeAll m store names ops := by
  induction ops generalizing store names with
  | nil => rfl
  | cons op rest ih =>
    have hone : composeOperation m' store names op = composeOperation m store names op := by
      rw [composeOperation, composeOperation, composeSave_congr h]
    have hlater := h.of_naming (composeOperation_hands_out m store names op)
    rw [composeAll, composeAll, hone]
    dsimp only
    rw [ih hlater]

/-! ### Operations that touch nothing in common -/

/-- No entity is touched by both operations. -/
def Operation.Apart (store : Store) (op op' : Operation) : Prop :=
  ∀ key, op.Touches store key → ¬ op'.Touches store key

theorem Operation.apart_iff {op' : Operation} :
    op.Apart store op' ↔ ∀ key ∈ op.touched store, key ∉ op'.touched store := by
  simp only [Apart, mem_touched]

instance {op' : Operation} : Decidable (op.Apart store op') :=
  decidable_of_iff' _ Operation.apart_iff

theorem Operation.apart_congr {op' : Operation}
    (h : ∀ key, (store'.get? key).map Entity.shape = (store.get? key).map Entity.shape) :
    op.Apart store' op' ↔ op.Apart store op' := by
  simp only [Apart, touches_congr h]

/-- What an operation touches has been settled, and nothing else has changed since it was
composed. -/
theorem Operation.Settles.store_eq {result : QueryResult}
    (h : op.Settles m store names result store') (hnodup : (op.touched store).Nodup) :
    store' = (composeOperation m store names op).store.modifyEach (op.touched store) fun e =>
      (op.kind.settle m result e).releaseVariable := by
  refine Store.ext_get? fun key => ?_
  by_cases htouches : op.Touches store key
  · rw [h.touched key htouches, Store.get?_modifyEach_of_mem hnodup (mem_touched.mpr htouches)]
  · rw [h.untouched key htouches,
      Store.get?_modifyEach_of_not_mem fun hmem => htouches (mem_touched.mp hmem)]

section Flush

variable {σ : Type} {hooks : Hooks σ} {st st' : FlushState σ} (hhooks : hooks.size = 0)

include hhooks

/-- If no entity is touched by two operations, then a flush that succeeds executes the statements of
the preview. -/
theorem outcome_composeAll_of_apart {response response' : Response}
    (hapart : ops.Pairwise (Operation.Apart st.store))
    (h : runOperations hooks m ops response st = (.ok response', st')) :
    (composeAll m st.store st.names ops).outcome =
      .ok ((executions hooks m ops st).map (·.statement)) := by
  induction ops generalizing response st with
  | nil => rfl
  | cons op rest ih =>
    obtain ⟨hfirst, hrest⟩ := List.pairwise_cons.mp hapart
    rw [runOperations] at h
    rcases hrun : runOperation hooks m op st with ⟨_ | ⟨statement, result⟩, st₁⟩
    · simp [hrun] at h
    · simp only [hrun] at h
      obtain ⟨houtcome, hsettles⟩ := runOperation_settles hhooks hrun
      obtain ⟨-, hfades, hnames⟩ := runOperation_ok hhooks hrun
      have hnaming := composeOperation_hands_out m st.store st.names op
      have hshape : ∀ key, (st₁.store.get? key).map Entity.shape =
          (st.store.get? key).map Entity.shape := fun key =>
        (hfades.shape key).trans (hnaming.shape key)
      have hpreview := ih (hrest.imp (Operation.apart_congr hshape).mpr) h
      rw [hsettles.store_eq (nodup_touched_of_outcome houtcome), hnames,
        outcome_composeAll_modifyEach fun key hkey op' hop' htouches =>
          hfirst op' hop' key (Operation.mem_touched.mp hkey)
            ((touches_composeOperation m st.store st.names op op' key).mp htouches)] at hpreview
      rw [composeAll, houtcome, executions, List.map_append, ← Option.toList_map,
        execution?_of_ok hrun, hrun]
      dsimp only
      rw [hpreview]
      rfl

end Flush

/-! ### Variables of a statement -/

/-- The statement returns the variable, or has a parameter that is spelled after it. -/
def Statement.Uses (s : Statement) (name : String) : Prop :=
  name ∈ s.returns ∨ ∃ field n, Names.paramName name field n ∈ s.params.names

/-- No variable is used by both statements. -/
def Statement.Apart (s s' : Statement) : Prop :=
  ∀ name, Names.IsStem name → s.Uses name → ¬ s'.Uses name

/-- The statement of a delete returns nothing, and its parameter is spelled after the variable of
the deleted entity. -/
theorem statement_of_delete (hkind : op.kind ≠ .save)
    (hs : (composeOperation m store names op).outcome = .ok (some s)) :
    ∃ name n, (composeOperation m store names op).store.nameOf? op.key = some name ∧
      s.returns = [] ∧ s.params.names = [Names.paramName name "id" n] := by
  rw [composeOperation] at hs ⊢
  cases hop : op.kind with
  | save => exact absurd hop hkind
  | delete detach =>
    simp only [hop, composeDelete, collectDeletion] at hs ⊢
    cases he : store.get? op.key with
    | none => simp [he, Except.map] at hs
    | some e =>
      obtain ⟨name, names₁, hdefine⟩ := names.exists_define e
      simp only [he, hdefine] at hs ⊢
      have hbound : (e.bindVariable name).id = e.id := rfl
      rw [hbound] at hs ⊢
      cases hid : e.id with
      | none => simp [hid, Except.map, Deletion.toStatement?] at hs
      | some id =>
        simp only [hid, Except.map, Deletion.toStatement?, Deletion.add, List.nil_append,
          List.cons_ne_nil, if_false, Except.ok.injEq, Option.some.injEq] at hs
        refine ⟨name, names₁.paramCount e.typeName, Store.nameOf?_modify_self he _, ?_, ?_⟩
        · rw [← hs]
        · rw [← hs]
          rfl

section Variables

variable (hnamed : store.NamedBy names)
  (hs : (composeOperation m store names op).outcome = .ok (some s))

include hnamed hs

/-- A statement uses the variables of what its operation touches. -/
theorem exists_uses_of_touches (htouches : op.Touches store key) :
    ∃ name, (composeOperation m store names op).store.nameOf? key = some name ∧ s.Uses name := by
  by_cases hkind : op.kind = .save
  · have htargets : op.Targets store key := by
      rcases htouches with rfl | htargets
      · exact ⟨hkind, .inl rfl⟩
      · exact htargets
    obtain ⟨name, hname, hreturned⟩ := (mem_returns_composeOperation hnamed hs).mpr htargets
    exact ⟨name, hname, .inl hreturned⟩
  · obtain ⟨name, n, hname, -, hparams⟩ := statement_of_delete hkind hs
    rw [(htouches.deletes hkind).1] at hname
    exact ⟨name, hname, .inr ⟨"id", n, hparams ▸ List.mem_singleton_self _⟩⟩

/-- Any other variable that it uses was made up for a bare id. -/
theorem touches_of_uses (hstem : Names.IsStem name) (huses : s.Uses name) :
    (∃ key, op.Touches store key ∧
      (composeOperation m store names op).store.nameOf? key = some name) ∨
    ((composeOperation m store names op).names.Issued name ∧ ¬ names.Issued name ∧
      ∀ key, (composeOperation m store names op).store.nameOf? key ≠ some name) := by
  by_cases hkind : op.kind = .save
  · have hcheck := accepted_of_composeOperation hs hkind
    obtain ⟨parts, h⟩ := Batch.exists_parts (m := m) hnamed hcheck
    rw [composeOperation_of_save hkind hcheck] at hs ⊢
    obtain rfl := Option.some.inj (Except.ok.inj hs)
    have hpart : ∃ p ∈ parts, p.name = name := by
      rcases huses with hreturned | ⟨field, n, hparam⟩
      · have hreturned' : name ∈ parts.flatMap Part.returned := h.returned ▸ hreturned
        obtain ⟨p, hp, hmem⟩ := List.mem_flatMap.mp hreturned'
        refine ⟨p, hp, ?_⟩
        cases hmention : p.mention with
        | entity key => simpa [Part.returned, hmention, eq_comm] using hmem
        | id i => simp [Part.returned, hmention] at hmem
      · obtain ⟨pair, hpair, hspelled⟩ := List.mem_map.mp hparam
        obtain ⟨p, hp, hmem⟩ := List.mem_flatMap.mp (h.params.mem_iff.mp hpair)
        obtain ⟨field', n', -, -, hspelled'⟩ := Part.param_of_mem hmem
        exact ⟨p, hp, (Names.paramName_inj (h.issued hp).isStem hstem
          (hspelled'.symm.trans hspelled)).1⟩
    obtain ⟨p, hp, rfl⟩ := hpart
    cases hmention : p.mention with
    | entity key =>
      have hmentioned : .entity key ∈ Batch.mentioned store op.key := by
        have hseen := h.mem_mentions.mpr ⟨p, hp, hmention⟩
        rwa [List.flatMap_singleton] at hseen
      exact .inl ⟨key, .inr ⟨hkind, Batch.mem_mentioned.mp hmentioned⟩,
        h.entity p hp key hmention⟩
    | id i => exact .inr (h.bare p hp i hmention)
  · obtain ⟨name', n, hname, hreturns, hparams⟩ := statement_of_delete hkind hs
    refine .inl ⟨op.key, .inl rfl, ?_⟩
    rcases huses with hreturned | ⟨field, n', hparam⟩
    · rw [hreturns] at hreturned
      exact absurd hreturned List.not_mem_nil
    · rw [hparams, List.mem_singleton] at hparam
      have hissued := ((composeOperation_evolves m op hnamed).named hnamed).issued _ _ hname
      rw [hname, (Names.paramName_inj hstem hissued.isStem hparam).1]

end Variables

/-! ### Variables of a flush -/

section Flush

variable {σ : Type} {hooks : Hooks σ} {st st' : FlushState σ} {x y : Execution}

/-- What was settled has no variable any more. The next operation on the entity gives it a new one,
where a preview would have used the same again. -/
theorem Operation.Settles.nameOf?_eq_none {result : QueryResult}
    (h : op.Settles m store names result store') (htouches : op.Touches store key) :
    store'.nameOf? key = none := by
  rw [Store.nameOf?, h.touched key htouches]
  cases (composeOperation m store names op).store.get? key <;> rfl

/-- A statement does not use a variable that has been handed out and that no entity has. -/
theorem Execution.Sound.not_uses (h : y.Sound m) (hevolves : Evolves store names y.store y.names)
    (hstem : Names.IsStem name) (hissued : names.Issued name)
    (hfree : ∀ key, store.nameOf? key ≠ some name) : ¬ y.statement.Uses name := by
  intro huses
  rcases touches_of_uses h.named h.outcome hstem huses with ⟨key, -, hname⟩ | ⟨-, hnot, -⟩
  · exact hfree key ((hevolves.trans h.evolves).nameOf?_of_issued hname hissued)
  · exact hnot (hevolves.issued name hissued)

variable (hhooks : hooks.size = 0)

include hhooks

/-- When an operation has been carried out, no entity has a variable that its statement uses. -/
theorem free_of_uses (hnamed : st.store.NamedBy st.names) (hx : execution? hooks m op st = some x)
    {done : Option Statement × QueryResult} (hrun : runOperation hooks m op st = (.ok done, st'))
    (hstem : Names.IsStem name) (huses : x.statement.Uses name) :
    st'.names.Issued name ∧ ∀ key, st'.store.nameOf? key ≠ some name := by
  obtain ⟨statement, result⟩ := done
  obtain ⟨rfl, hstore, hnames, houtcome⟩ := execution?_of_size hhooks hx
  obtain ⟨hsound, -, hafter⟩ := execution?_spec (Hooks.restrained_of_size hhooks) hnamed hx
  have hevolves := hafter _ _ hrun
  obtain ⟨-, hsettles⟩ := runOperation_settles hhooks hrun
  rw [← hstore, ← hnames] at hsettles
  rcases touches_of_uses hsound.named hsound.outcome hstem huses with
    ⟨key, htouches, hname⟩ | ⟨hissued, -, hfree⟩
  · have hissued := hsound.named_composed.issued key name hname
    refine ⟨hevolves.issued name hissued, fun key' hname' => ?_⟩
    have hown := hevolves.nameOf?_of_issued hname' hissued
    obtain rfl := hsound.named_composed.distinct key' key name hown hname
    rw [hsettles.nameOf?_eq_none htouches] at hname'
    cases hname'
  · exact ⟨hevolves.issued name hissued, fun key' hname' =>
      hfree key' (hevolves.nameOf?_of_issued hname' hissued)⟩

/-- The statements that a flush executes use no variable in common, not even for the same entity:
its variable is taken back when the operation is finished, and the next one is new. -/
theorem executions_apart (hnamed : st.store.NamedBy st.names) (ops : List Operation) :
    ((executions hooks m ops st).map (·.statement)).Pairwise Statement.Apart := by
  induction ops generalizing st with
  | nil => exact .nil
  | cons op rest ih =>
    have hrestrained := Hooks.restrained_of_size hhooks
    have hsingle : ((execution? hooks m op st).toList.map (·.statement)).Pairwise
        Statement.Apart := by
      cases execution? hooks m op st <;> simp
    rw [executions, List.map_append]
    rcases hrun : runOperation hooks m op st with ⟨_ | done, st₁⟩
    · rw [List.map_nil, List.append_nil]
      exact hsingle
    · have hnamed₁ := (runOperation_evolves hrestrained hnamed hrun).named hnamed
      refine List.pairwise_append.mpr ⟨hsingle, ih hnamed₁, ?_⟩
      intro s hs s' hs' name hstem huses
      obtain ⟨x, hx, rfl⟩ := List.mem_map.mp hs
      obtain ⟨y, hy, rfl⟩ := List.mem_map.mp hs'
      obtain ⟨hissued, hfree⟩ := free_of_uses hhooks hnamed (Option.mem_toList.mp hx) hrun hstem
        huses
      obtain ⟨hchain, hlater⟩ := chain_executions (m := m) hrestrained hnamed₁ rest
      exact (hchain.sound y hy).not_uses (hlater y hy) hstem hissued hfree

end Flush

/-! ### Variables of a preview -/

/-- The operation needs a statement: it is a save, or the delete of an entity that has an id. -/
def Operation.Needed (store : Store) (op : Operation) : Prop :=
  op.kind = .save ∨ (store.idOf? op.key).isSome

theorem Operation.Needed.exists_eq_some {statement : Option Statement} (h : op.Needed store)
    (houtcome : (composeOperation m store names op).outcome = .ok statement) :
    ∃ s, statement = some s := by
  refine Option.ne_none_iff_exists'.mp fun hnone => ?_
  obtain ⟨hkind, hid⟩ := (unneeded_iff houtcome).mp hnone
  rcases h with hsave | hsome
  · exact hkind hsave
  · simp [hid] at hsome

/-- The statement of the first operation, and those of the others. -/
theorem exists_of_composeAll_cons
    (h : (composeAll m store names (op :: ops)).outcome = .ok statements) :
    ∃ statement others, statements = statement.toList ++ others ∧
      (composeOperation m store names op).outcome = .ok statement ∧
      (composeAll m (composeOperation m store names op).store
        (composeOperation m store names op).names ops).outcome = .ok others := by
  rw [composeAll] at h
  cases houtcome : (composeOperation m store names op).outcome with
  | error err => simp [houtcome] at h
  | ok statement =>
    cases hothers : (composeAll m (composeOperation m store names op).store
        (composeOperation m store names op).names ops).outcome with
    | error err => simp [houtcome, hothers, Except.map] at h
    | ok others =>
      simp only [houtcome, hothers] at h
      exact ⟨statement, others, (Except.ok.inj h).symm, rfl, rfl⟩

/-- Composing leaves what operations need as it is. -/
theorem needed_composeOperation {op' : Operation} (h : op'.Needed store) (m : Moment)
    (names : Names) (op : Operation) :
    op'.Needed (composeOperation m store names op).store := by
  rw [Operation.Needed] at h ⊢
  rwa [idOf?_composeOperation]

/-- In a preview a variable is used by every statement whose operation touches its entity. -/
theorem exists_uses_of_composeAll (hnamed : store.NamedBy names)
    (h : (composeAll m store names ops).outcome = .ok statements) (hop : op ∈ ops)
    (hneeded : op.Needed store) (htouches : op.Touches store key)
    (hname : store.nameOf? key = some name) : ∃ s ∈ statements, s.Uses name := by
  induction ops generalizing store names statements with
  | nil => exact absurd hop List.not_mem_nil
  | cons first rest ih =>
    obtain ⟨statement, others, rfl, houtcome, hothers⟩ := exists_of_composeAll_cons h
    obtain ⟨hnaming, hnamed'⟩ := composeOperation_naming m first hnamed
    have hkept := hnaming.keeps key name hname
    rcases List.mem_cons.mp hop with rfl | hop
    · obtain ⟨s, rfl⟩ := hneeded.exists_eq_some houtcome
      obtain ⟨name', hname', huses⟩ := exists_uses_of_touches hnamed houtcome htouches
      rw [Option.some.inj (hkept.symm.trans hname')]
      exact ⟨s, List.mem_cons_self, huses⟩
    · obtain ⟨s, hs, huses⟩ := ih hnamed' hothers hop
        (needed_composeOperation hneeded m names first)
        ((touches_composeOperation m store names first op key).mpr htouches) hkept
      exact ⟨s, List.mem_append_right _ hs, huses⟩

/-- If the statements of a preview use no variable in common, then no entity is touched by two
operations that need a statement. -/
theorem apart_of_composeAll (hnamed : store.NamedBy names)
    (h : (composeAll m store names ops).outcome = .ok statements)
    (hapart : statements.Pairwise Statement.Apart) :
    ops.Pairwise fun op op' => op.Needed store → op'.Needed store → op.Apart store op' := by
  induction ops generalizing store names statements with
  | nil => exact .nil
  | cons op rest ih =>
    obtain ⟨statement, others, rfl, houtcome, hothers⟩ := exists_of_composeAll_cons h
    obtain ⟨hnaming, hnamed'⟩ := composeOperation_naming m op hnamed
    obtain ⟨-, hlater, hnone⟩ := List.pairwise_append.mp hapart
    refine List.pairwise_cons.mpr ⟨fun op' hop' hneeded hneeded' key htouches htouches' => ?_, ?_⟩
    · obtain ⟨s, rfl⟩ := hneeded.exists_eq_some houtcome
      obtain ⟨name, hname, huses⟩ := exists_uses_of_touches hnamed houtcome htouches
      obtain ⟨s', hs', huses'⟩ := exists_uses_of_composeAll hnamed' hothers hop'
        (needed_composeOperation hneeded' m names op)
        ((touches_composeOperation m store names op op' key).mpr htouches') hname
      exact hnone s List.mem_cons_self s' hs' name (hnamed'.issued key name hname).isStem huses
        huses'
    · refine (ih hnamed' hothers hlater).imp fun hrest hneeded hneeded' => ?_
      exact (Operation.apart_congr hnaming.shape).mp (hrest
        (needed_composeOperation hneeded m names op) (needed_composeOperation hneeded' m names op))

end GraphMapping
