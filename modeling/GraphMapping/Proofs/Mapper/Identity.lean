import GraphMapping.Proofs.Mapper.Creations
import GraphMapping.Proofs.Work.Identity

/-!
# Ids when hooks fail

A statement is executed before the entities that it is about take its result in. That happens one
entity after the other, and the hooks of each are called on the way: those of a new entity when it
has its id already, those of a deleted one while it still has it. When a hook fails the flush ends,
so an entity behind the failing one has not taken its result in, and a deleted entity whose own hook
fails keeps its id. Everything in front of the failure stays in line with the database.

An entity that has an id is not created again by any statement that is composed later, and nothing
asks for the id of an entity that has none. So when it is tried again after a failure, what was
reached is neither created twice nor looked for when it is gone.

## Main definitions

* `Mapper.turns`, `Mapper.Answers`: the operations of a flush, and those whose statement succeeds.
* `Mapper.FollowsDatabase`: how ids follow what was executed.

## Main results

* `Mapper.send_follows`: ids follow the database as far as the steps after a statement come.
* `Mapper.send_falls_behind`: and no further.
-/

namespace GraphMapping

variable {σ : Type}

/-! ### Trying again -/

namespace Execution

variable {m : Moment} {x : Execution} {key : EntityKey} {name : String}

/-- A save creates nothing that has an id, because what has one is mentioned by its variable alone,
as an end as well as by itself. -/
theorem Sound.not_spells (h : x.Sound m) (hkind : x.op.kind = .save)
    (hname : (x.composed m).store.nameOf? key = some name) (hid : (x.store.idOf? key).isSome) :
    ∀ p ∈ x.created m, ¬ p.Spells name := by
  intro p hp hspells
  obtain ⟨key', hname', hcreates⟩ := (saved_of_outcome hkind h.outcome).2 p hp name hspells
  obtain rfl := h.named_composed.distinct key key' name hname hname'
  rw [hcreates.new] at hid
  cases hid

/-- A save asks for no id of an entity that has none. -/
theorem Sound.not_asked (h : x.Sound m) (hkind : x.op.kind = .save)
    (hname : (x.composed m).store.nameOf? key = some name) (hid : x.store.idOf? key = none) :
    ∀ c ∈ (x.draft m).clauses.conditions, c.name ≠ name := by
  obtain ⟨parts, hwrites, hstore, -, -⟩ := h.exists_writes hkind
  rintro c hc rfl
  rw [hwrites.follows.conditions] at hc
  obtain ⟨p, hp, hcondition⟩ := List.mem_flatMap.mp hc
  have hpart := denotes_part hkind hwrites hstore hp
  rw [← Part.name_of_mem_conditions hcondition] at hpart
  have hmention := h.denotes_unique hpart (.entity hname)
  obtain ⟨id, hidentity, -⟩ := List.mem_map.mp hcondition
  rw [hmention, Endpoint.identity?, Option.mem_toList] at hidentity
  rw [Store.idOf?] at hid
  cases he : x.store.get? key with
  | none => simp [he] at hidentity
  | some e => simp_all

end Execution

namespace Mapper

variable {mapper : Mapper σ} {m : Moment} {key : EntityKey}

/-- The operations that begin when the pending work is sent. -/
def turns (mapper : Mapper σ) (m : Moment) : List (Turn σ) :=
  GraphMapping.turns mapper.hooks m mapper.work.operations mapper.beforeFlush

/-- Sending comes to the turn of an operation, whose statement is executed with success, or not
needed; the turns of the given operations follow. -/
structure Answers (mapper : Mapper σ) (m : Moment) (t : Turn σ) (back : List (Turn σ))
    (reply : Reply) (st : FlushState σ) : Prop where
  turn : ∃ front, mapper.turns m = front ++ t :: back
  answer : answerOperation mapper.hooks m t.op t.state = (.ok reply, st)

/-- Ids follow what is executed, as far as the steps after a statement come. -/
structure FollowsDatabase (mapper : Mapper σ) (m : Moment) : Prop where
  /-- What came back from a save has an id, if it had one before or its step after the statement is
  reached, and if no later operation deletes it. -/
  saved : ∀ t back reply st, mapper.Answers m t back reply st → ∀ key,
    t.op.Targets t.state.store key → reply.Binds st key →
    (t.state.store.idOf? key).isSome ∨ reply.Reached mapper.hooks m st key →
    (∀ t' ∈ back, ¬ t'.op.Deletes key) → ((mapper.send m).2.store.idOf? key).isSome
  /-- What was deleted has none, if its hooks succeed and no later operation touches it. -/
  deleted : ∀ t back reply st, mapper.Answers m t back reply st → ∀ key,
    t.op.Deletes key → reply.Finished mapper.hooks m st key →
    (∀ t' ∈ back, ¬ t'.op.Touches t'.state.store key) → (mapper.send m).2.store.idOf? key = none
  /-- When a step after the statement is not reached, sending fails, and its entity keeps the id, or
  the lack of one, that it had when the statement was executed. -/
  behind : ∀ t back reply st, mapper.Answers m t back reply st → ∀ key,
    t.op.Touches t.state.store key → ¬ reply.Reached mapper.hooks m st key →
    (∃ err, (mapper.send m).1 = .error err) ∧
      (mapper.send m).2.store.idOf? key = st.store.idOf? key
  /-- When a hook of a deleted entity fails, so does sending, and the entity keeps its id. -/
  refused : ∀ t back reply st, mapper.Answers m t back reply st → ∀ key,
    t.op.Deletes key → ¬ reply.Finished mapper.hooks m st key →
    (∃ err, (mapper.send m).1 = .error err) ∧
      t.state.store.KeepsId key (mapper.send m).2.store
  /-- When sending succeeds, every operation has its turn and every step is finished. -/
  finished : ∀ response, (mapper.send m).1 = .ok response →
    (mapper.turns m).map (·.op) = mapper.work.operations ∧
    ∀ t ∈ mapper.turns m, ∃ back reply st, mapper.Answers m t back reply st ∧
      ∀ key, t.op.Touches t.state.store key → reply.Finished mapper.hooks m st key
  /-- What has an id then is created by no statement that is composed next. -/
  created : ∀ m' (x : Execution), x.store = (mapper.send m).2.store → x.op.kind = .save →
    (x.composed m').outcome = .ok (some x.statement) → ∀ key name,
    (x.composed m').store.nameOf? key = some name → (x.store.idOf? key).isSome →
      ∀ p ∈ x.created m', ¬ p.Spells name
  /-- The id of what has none is asked for by no such statement. -/
  updated : ∀ m' (x : Execution), x.store = (mapper.send m).2.store → x.op.kind = .save →
    (x.composed m').outcome = .ok (some x.statement) → ∀ key name,
    (x.composed m').store.nameOf? key = some name → x.store.idOf? key = none →
      ∀ c ∈ (x.draft m').clauses.conditions, c.name ≠ name

/-- Sending leads from the end of a turn to its own end within every relation that the later turns
are in. -/
theorem send_rel {R : Store → Store → Prop} (hrefl : ∀ store, R store store)
    (htrans : ∀ a b c, R a b → R b c → R a c) {t : Turn σ} {front back : List (Turn σ)}
    (h : mapper.turns m = front ++ t :: back)
    (hback : ∀ t' ∈ back, R t'.state.store (runOperation mapper.hooks m t'.op t'.state).2.store) :
    ∃ store, R (runOperation mapper.hooks m t.op t.state).2.store store ∧
      ∀ key, (mapper.send m).2.store.idOf? key = store.idOf? key :=
  ⟨_, runOperations_rel_of_turns (R := fun st st' => R st.store st'.store) (fun _ => hrefl _)
    (fun _ _ _ => htrans _ _ _) h hback {}, idOf?_send rfl⟩

/-- When an operation fails, sending fails with it and ends there. What sending does after that
concerns pending work and variables, so the ids are those that the operation has left. -/
theorem send_error_of_turn {t : Turn σ} {front back : List (Turn σ)} {err : MapperError}
    (h : mapper.turns m = front ++ t :: back)
    (herror : (runOperation mapper.hooks m t.op t.state).1 = .error err) :
    (mapper.send m).1 = .error err ∧ ∀ key, (mapper.send m).2.store.idOf? key =
      (runOperation mapper.hooks m t.op t.state).2.store.idOf? key := by
  obtain ⟨rest, response, -, -, hrun⟩ := exists_of_turns h {}
  rcases hop : runOperation mapper.hooks m t.op t.state with ⟨outcome, st⟩
  obtain rfl : outcome = .error err := by rwa [hop] at herror
  rw [runOperations, hop] at hrun
  exact ⟨congrArg Prod.fst hrun, idOf?_send hrun⟩

/-- **Ids follow the database as far as the steps after a statement come.** Whatever is pending in
whatever store and whatever the connection answers, and whatever hooks do and wherever they fail, as
long as they take no id away: whether sending succeeds or fails, for every operation whose statement
was executed with success,

* each entity that it was to save when it began, and whose variable the result binds to a node or
  relationship, has an id, unless a hook of an entity in front of it failed and it had none before;
* a deleted entity has none if its own hooks succeed, unless a later operation touches it;
* an entity whose step was not reached is as it was, and a deleted one whose hook fails keeps its
  id; in both cases sending fails, so that nothing of the kind happens when it succeeds.

What has an id then is not created by a statement that is composed next, and the id of what has none
is not asked for. -/
theorem send_follows (m : Moment) (hhooks : mapper.hooks.KeepIds) : mapper.FollowsDatabase m := by
  have hsound : ∀ m' (x : Execution), x.store = (mapper.send m).2.store →
      (x.composed m').outcome = .ok (some x.statement) → x.Sound m' := by
    intro m' x hstore houtcome
    refine ⟨houtcome, Store.namedBy_of_nameOf?_eq_none (fun key => ?_) _⟩
    rw [hstore]
    exact (settled_send mapper m).nameOf? key
  constructor
  case saved =>
    rintro t back reply st ⟨⟨front, hturns⟩, hanswer⟩ key htargets hbinds hreached hlater
    have hown := Reply.isSome_idOf?_runOperation hhooks hanswer htargets hbinds hreached
    obtain ⟨store, hkept, hsent⟩ := send_rel (R := fun store store' => store.KeepsId key store')
      (fun _ => id) (fun _ _ _ h h' => h' ∘ h) hturns fun t' ht' => by
        refine (stepsWithin_keepsId hhooks t'.op key).run fun obs hobs ob hob hdelete heq => ?_
        exact hlater t' ht' (heq ▸ deletes_of_mem_obligations hobs hob hdelete)
    rw [hsent]
    exact hkept hown
  case deleted =>
    rintro t back reply st ⟨⟨front, hturns⟩, hanswer⟩ key hdeletes hfinished hlater
    have hown := (Reply.idOf?_runOperation_of_deletes hhooks hanswer hdeletes).1 hfinished
    obtain ⟨store, hkept, hsent⟩ := send_rel
      (R := fun store store' => store'.idOf? key = store.idOf? key)
      (fun _ => rfl) (fun _ _ _ h h' => h'.trans h) hturns fun t' ht' => by
        refine (stepsWithin_idOf? t'.op key).run fun obs hobs ob hob heq => ?_
        exact hlater t' ht' (heq ▸ (of_mem_obligations hobs hob).1)
    rw [hsent, hkept, hown]
  case behind =>
    rintro t back reply st ⟨⟨front, hturns⟩, hanswer⟩ key htouches hnot
    obtain ⟨hsame, err, herror⟩ := Reply.idOf?_runOperation_of_not_reached hanswer htouches hnot
    obtain ⟨hfails, hsent⟩ := send_error_of_turn hturns herror
    exact ⟨⟨err, hfails⟩, (hsent key).trans hsame⟩
  case refused =>
    rintro t back reply st ⟨⟨front, hturns⟩, hanswer⟩ key hdeletes hnot
    obtain ⟨hkept, err, herror⟩ :=
      (Reply.idOf?_runOperation_of_deletes hhooks hanswer hdeletes).2 hnot
    obtain ⟨hfails, hsent⟩ := send_error_of_turn hturns herror
    exact ⟨⟨err, hfails⟩, fun hid => by
      rw [hsent]
      exact hkept hid⟩
  case finished =>
    intro response hok
    obtain ⟨st', hrun⟩ := exists_runOperations hok
    obtain ⟨hops, hturns⟩ := turns_of_ok hrun
    refine ⟨hops, fun t ht => ?_⟩
    obtain ⟨front, back, heq⟩ := List.append_of_mem ht
    obtain ⟨done, st₁, hdone⟩ := hturns t ht
    rw [runOperation_eq] at hdone
    rcases hanswer : answerOperation mapper.hooks m t.op t.state with ⟨_ | reply, st⟩
    · rw [hanswer] at hdone
      cases hdone
    · rw [hanswer] at hdone
      exact ⟨back, reply, st, ⟨⟨front, heq⟩, hanswer⟩, fun key htouches =>
        Reply.finished_of_ok hdone (Reply.exists_of_touches hanswer htouches)⟩
  case created =>
    intro m' x hstore hkind houtcome key name hname hid
    exact (hsound m' x hstore houtcome).not_spells hkind hname hid
  case updated =>
    intro m' x hstore hkind houtcome key name hname hid
    exact (hsound m' x hstore houtcome).not_asked hkind hname hid

/-- A hook for the phase after the statement, on entities of one type, that fails. -/
def failing (typeName : String) (phase : Phase) : Hooks Unit :=
  (Hooks.empty.register typeName phase fun _ e _ app => ⟨e, app, some "refused"⟩).2

theorem keepIds_failing (typeName : String) (phase : Phase) : (failing typeName phase).KeepIds := by
  refine ⟨fun hook hhook => ?_, nofun⟩
  obtain rfl := List.mem_singleton.mp hhook
  exact fun _ e _ _ => .refl e

/-- A relationship between two nodes, all of them new, is saved. All of them come back, and then the
hook of the second node fails. -/
def introduction : Mapper Unit where
  settings := {}
  catalog := .empty true
  store :=
    ⟨[.node "Node" ["Node"] (.empty true), .node "Guest" ["Guest"] (.empty true),
      .relationship "Knows" ["KNOWS"] (some (.entity ⟨0⟩)) (some (.entity ⟨1⟩)) (.empty true)]⟩
  hooks := failing "Guest" .afterCreate
  work := { operations := [⟨⟨2⟩, .save, .scheduled, []⟩] }
  connection := ⟨[fun s => .ok ⟨[.ofList (s.returns.map (·, .node ⟨8, [], .empty⟩))]⟩], []⟩
  app := ()

/-- Both nodes have the ids that came back. The relationship has none, though it came back too. -/
theorem send_follows_introduction : introduction.hooks.KeepIds ∧
    introduction.FollowsDatabase .epoch ∧ (introduction.executed .epoch).length = 1 ∧
    (introduction.send .epoch).2.store.idOf? ⟨0⟩ = some 8 ∧
    (introduction.send .epoch).2.store.idOf? ⟨1⟩ = some 8 ∧
    (introduction.send .epoch).2.store.idOf? ⟨2⟩ = none :=
  ⟨keepIds_failing _ _, send_follows .epoch (keepIds_failing _ _), rfl, rfl, rfl, rfl⟩

/-- A node with an id is deleted, and its hook fails. -/
def eviction : Mapper Unit where
  settings := {}
  catalog := .empty true
  store := ⟨[{ Entity.node "Guest" ["Guest"] (.empty true) with id := some 3 }]⟩
  hooks := failing "Guest" .afterDelete
  work := { operations := [⟨⟨0⟩, .delete true, .scheduled, []⟩] }
  connection := {}
  app := ()

/-- A new node is saved, and its hook puts another node in its place. -/
def exchange : Mapper Unit where
  settings := {}
  catalog := .empty true
  store := ⟨[.node "Guest" ["Guest"] (.empty true)]⟩
  hooks := (Hooks.empty.register "Guest" .afterCreate fun _ _ _ app =>
    ⟨.node "Guest" ["Guest"] (.empty true), app, none⟩).2
  work := { operations := [⟨⟨0⟩, .save, .scheduled, []⟩] }
  connection := ⟨[fun s => .ok ⟨[.ofList (s.returns.map (·, .node ⟨8, [], .empty⟩))]⟩], []⟩
  app := ()

/-- **Ids fall behind the database when a hook fails.** In each case the statement is executed with
success in the last turn. A relationship that came back has no id, because the hook of one of its
ends failed; a deleted node has its id, because its own hook failed; and a node that came back has
none, because its hook put another one in its place. -/
theorem send_falls_behind :
    (∃ t reply st, introduction.Answers .epoch t [] reply st ∧
      t.op.Targets t.state.store ⟨2⟩ ∧ reply.Binds st ⟨2⟩ ∧
      (introduction.send .epoch).2.store.idOf? ⟨2⟩ = none) ∧
    (∃ t reply st, eviction.Answers .epoch t [] reply st ∧ t.op.Deletes ⟨0⟩ ∧
      (eviction.executed .epoch).length = 1 ∧
      (eviction.send .epoch).2.store.idOf? ⟨0⟩ = some 3) ∧
    ∃ t reply st, exchange.Answers .epoch t [] reply st ∧
      t.op.Targets t.state.store ⟨0⟩ ∧ reply.Binds st ⟨0⟩ ∧
      (exchange.send .epoch).2.store.idOf? ⟨0⟩ = none := by
  refine ⟨⟨_, _, _, ⟨⟨[], rfl⟩, rfl⟩, ⟨rfl, .inl rfl⟩, ⟨"r0", rfl, rfl⟩, rfl⟩, ?_, ?_⟩
  · exact ⟨_, _, _, ⟨⟨[], rfl⟩, rfl⟩, ⟨rfl, nofun⟩, rfl, rfl⟩
  · exact ⟨_, _, _, ⟨⟨[], rfl⟩, rfl⟩, ⟨rfl, .inl rfl⟩, ⟨"n0", rfl, rfl⟩, rfl⟩

end Mapper

end GraphMapping
