import GraphMapping.Proofs.Statement.Composing

/-!
# Which batches are saved

A batch is checked before it is written, and writing it takes for granted what the check has found.
It does so while it goes over the store again, which it has changed in the meantime by handing out
variables. `writeSave` writes a batch without taking anything for granted: every time an entity is
read, or an end is needed, writing may stop, and then leaves behind what it has done so far. After
the check it never does, so this is `composeSave`; and what is refused, with which error, is read
off the check alone.

What carries the proof is that writing hands out variables and does nothing else to the store
(`Naming`): a stored entity stays stored, a node stays a node, and an entity that has its variable
stays as it is.

## Main definitions

* `Batch.Refused`, `Batch.RefusedFirst`: the error of an entity that cannot be saved, and of a batch.
* `Writing`: steps of writing, which may stop.
* `writeSave`: checking and writing a batch.

## Main results

* `Batch.check_eq_error_iff`: why a batch is refused.
* `Writing.succeeds_write`, `Writing.succeeds_forM_write`: writing what can be saved does not stop.
* `composeSave_accepts`: which batches are saved, and what happens to the others.
-/

namespace GraphMapping

/-! ### What the check finds -/

namespace Batch

variable {store : Store} {keys : List EntityKey} {key : EntityKey} {e : Entity}
  {role : EndpointRole} {err : MapperError}

/-- What is wrong with an end of a relationship: there is none, it is not stored, or it is a
relationship. -/
inductive EndFault (store : Store) (key : EntityKey) (e : Entity) (role : EndpointRole) :
    ArgumentFault → Prop
  | missing (hend : e.endpoint? role = none) :
    EndFault store key e role (.endpointMissing e.typeName key role)
  | unknown {other} (hend : e.endpoint? role = some (.entity other))
    (hother : store.get? other = none) : EndFault store key e role (.endpointUnknown role other key)
  | notANode {other node} (hend : e.endpoint? role = some (.entity other))
    (hother : store.get? other = some node) (hrel : node.isNode = false) :
    EndFault store key e role (.endpointNotANode role other key)

/-- The error of an entity that cannot be saved. The start of a relationship is looked at before its
end is. -/
inductive Refused (store : Store) (key : EntityKey) : MapperError → Prop
  | unknown (he : store.get? key = none) : Refused store key (.compilation (.unknownEntity key))
  | start {e fault} (he : store.get? key = some e) (hrel : e.isNode = false)
    (hfault : EndFault store key e .start fault) : Refused store key (.argument fault)
  | finish {e start fault} (he : store.get? key = some e) (hrel : e.isNode = false)
    (hstart : e.endpoint? .start = some start) (hnode : IsNodeEnd store start)
    (hfault : EndFault store key e .finish fault) : Refused store key (.argument fault)

/-- The error of a batch that cannot be saved: that of its first entity that cannot be. -/
inductive RefusedFirst (store : Store) : List EntityKey → MapperError → Prop
  | empty : RefusedFirst store [] (.compilation .nothingToSave)
  | first {before key after err} (hbefore : ∀ k ∈ before, Accepted store k)
    (hkey : Refused store key err) : RefusedFirst store (before ++ key :: after) err

theorem checkEnd_eq_ok_iff : checkEnd store key e role = .ok () ↔
    ∃ x, e.endpoint? role = some x ∧ IsNodeEnd store x := by
  refine ⟨checkEnd_eq_ok, ?_⟩
  rintro ⟨x, hend, hnode⟩
  rw [checkEnd, hend]
  cases x with
  | id id => rfl
  | entity other =>
    obtain ⟨node, hother, hisNode⟩ := hnode other rfl
    simp only [hother, hisNode, if_true]

theorem checkEnd_eq_error_iff : checkEnd store key e role = .error err ↔
    ∃ fault, err = .argument fault ∧ EndFault store key e role fault := by
  constructor
  · intro h
    rw [checkEnd] at h
    cases hend : e.endpoint? role with
    | none =>
      rw [hend] at h
      exact ⟨_, (Except.error.inj h).symm, .missing hend⟩
    | some x =>
      cases x with
      | id id => simp [hend] at h
      | entity other =>
        simp only [hend] at h
        cases hother : store.get? other with
        | none =>
          rw [hother] at h
          exact ⟨_, (Except.error.inj h).symm, .unknown hend hother⟩
        | some node =>
          cases hrel : node.isNode with
          | true => simp [hother, hrel] at h
          | false =>
            simp only [hother, hrel, Bool.false_eq_true, if_false] at h
            exact ⟨_, (Except.error.inj h).symm, .notANode hend hother hrel⟩
  · rintro ⟨fault, rfl, hfault⟩
    rw [checkEnd]
    cases hfault with
    | missing hend => rw [hend]
    | unknown hend hother => simp only [hend, hother]
    | notANode hend hother hrel => simp only [hend, hother, hrel, Bool.false_eq_true, if_false]

theorem checkKey_eq_ok_iff : checkKey store key = .ok () ↔ Accepted store key := by
  refine ⟨checkKey_eq_ok, ?_⟩
  rintro ⟨e, he, hnode | ⟨start, finish, hstart, hfinish, hstartNode, hfinishNode⟩⟩
  · rw [checkKey, he]
    exact if_pos hnode
  · have hrel : e.isNode = false := Entity.isNode_eq_false_of_endpoint? hstart
    rw [checkKey, he]
    simp only [hrel, Bool.false_eq_true, if_false]
    rw [checkEnd_eq_ok_iff.mpr ⟨start, hstart, hstartNode⟩]
    exact checkEnd_eq_ok_iff.mpr ⟨finish, hfinish, hfinishNode⟩

theorem checkKey_eq_error_iff : checkKey store key = .error err ↔ Refused store key err := by
  constructor
  · intro h
    rw [checkKey] at h
    cases he : store.get? key with
    | none =>
      rw [he] at h
      obtain rfl := Except.error.inj h
      exact .unknown he
    | some e =>
      cases hrel : e.isNode with
      | true => simp [he, hrel] at h
      | false =>
        simp only [he, hrel, Bool.false_eq_true, if_false] at h
        cases hstart : checkEnd store key e .start with
        | error err' =>
          rw [hstart] at h
          obtain rfl := Except.error.inj h
          obtain ⟨fault, rfl, hfault⟩ := checkEnd_eq_error_iff.mp hstart
          exact .start he hrel hfault
        | ok u =>
          rw [hstart] at h
          obtain ⟨start, hend, hnode⟩ := checkEnd_eq_ok hstart
          obtain ⟨fault, rfl, hfault⟩ := checkEnd_eq_error_iff.mp h
          exact .finish he hrel hend hnode hfault
  · intro h
    rw [checkKey]
    cases h with
    | unknown he => rw [he]
    | start he hrel hfault =>
      simp only [he, hrel, Bool.false_eq_true, if_false]
      rw [checkEnd_eq_error_iff.mpr ⟨_, rfl, hfault⟩]
      rfl
    | finish he hrel hstart hnode hfault =>
      simp only [he, hrel, Bool.false_eq_true, if_false]
      rw [checkEnd_eq_ok_iff.mpr ⟨_, hstart, hnode⟩]
      exact checkEnd_eq_error_iff.mpr ⟨_, rfl, hfault⟩

/-- A batch passes if it is not empty and all its entities can be saved. -/
theorem check_eq_ok_iff : check store keys = .ok () ↔
    keys ≠ [] ∧ ∀ key ∈ keys, Accepted store key := by
  rw [check]
  split
  case isTrue hempty => exact iff_of_false (by simp) fun h => h.1 hempty
  case isFalse hne =>
    rw [List.forM_eq_ok_iff, and_iff_right hne]
    exact forall₂_congr fun key _ => checkKey_eq_ok_iff

/-- Why a batch is refused: there is nothing in it, or one of its entities cannot be saved. Then the
error is that of the first such entity, and of its start before its end. -/
theorem check_eq_error_iff : check store keys = .error err ↔ RefusedFirst store keys err := by
  rw [check]
  split
  case isTrue hempty =>
    subst hempty
    constructor
    · intro h
      obtain rfl := Except.error.inj h
      exact .empty
    · intro h
      generalize hkeys : ([] : List EntityKey) = keys at h
      cases h with
      | empty => rfl
      | first => simp at hkeys
  case isFalse hne =>
    rw [List.forM_eq_error_iff]
    constructor
    · rintro ⟨before, key, after, rfl, hbefore, hkey⟩
      exact .first (fun k hk => checkKey_eq_ok (hbefore k hk)) (checkKey_eq_error_iff.mp hkey)
    · intro h
      cases h with
      | empty => exact absurd rfl hne
      | first hbefore hkey =>
        exact ⟨_, _, _, rfl, fun k hk => checkKey_eq_ok_iff.mpr (hbefore k hk),
          checkKey_eq_error_iff.mpr hkey⟩

/-- Handing out variables changes nothing about what can be saved. -/
theorem Accepted.of_naming {store' : Store} {names names' : Names} (h : Accepted store key)
    (hnaming : Naming store names store' names') : Accepted store' key := by
  obtain ⟨e, he, hkind⟩ := h
  obtain ⟨e', he', hsame⟩ := hnaming.get? he
  have hshape : e.shape = e'.shape :=
    (congrArg Entity.shape hsame.symm : e.releaseVariable.shape = e'.releaseVariable.shape)
  have hends := Entity.endpoint?_congr hshape
  refine ⟨e', he', hkind.imp (fun hnode => Entity.isNode_congr hshape ▸ hnode) ?_⟩
  rintro ⟨start, finish, hstart, hfinish, hstartNode, hfinishNode⟩
  exact ⟨start, finish, hends .start ▸ hstart, hends .finish ▸ hfinish,
    hstartNode.of_naming hnaming, hfinishNode.of_naming hnaming⟩

end Batch

/-! ### Writing step by step -/

/-- Why writing stops. -/
inductive WriteFault where
  /-- An entity is to be read and is not stored. -/
  | unknown (key : EntityKey)
  /-- An entity is to be given its variable and is not stored. -/
  | undefined (key : EntityKey)
  /-- An end of a relationship is needed and there is none. -/
  | endpointMissing (key : EntityKey) (role : EndpointRole)

/-- Steps of writing. A step that stops leaves the draft as it is by then. -/
abbrev Writing (α : Type) := EStateM WriteFault Draft α

namespace Writing

/-- Read an entity. -/
def entity (key : EntityKey) : Writing Entity := fun d =>
  match d.store.get? key with
  | some e => .ok e d
  | none => .error (.unknown key) d

/-- Give an entity its variable. -/
def define (key : EntityKey) : Writing String := fun d =>
  match d.store.get? key with
  | some e => .ok (d.define key e).1 (d.define key e).2.2
  | none => .error (.undefined key) d

/-- The end of a relationship, which it has to have. -/
def endpoint (key : EntityKey) (e : Entity) (role : EndpointRole) : Writing Endpoint := fun d =>
  match e.endpoint? role with
  | some x => .ok x d
  | none => .error (.endpointMissing key role) d

/-- Bring a stored node into the statement. -/
def introduce (m : Moment) (key : EntityKey) : Writing (Bool × NodePattern) := do
  let name ← define key
  if ← modifyGet (·.place name) then
    return (false, ⟨name, [], []⟩)
  let e ← entity key
  match e.id with
  | none =>
    let fields ← modifyGet (·.bindFields e (e.data m .graph).toList)
    modify (·.addReturn name)
    return (true, ⟨name, e.labels, fields⟩)
  | some id =>
    modify fun d => ((d.addMatch (.node ⟨name, [], []⟩)).update m name e id).addReturn name
    return (false, ⟨name, [], []⟩)

/-- Write a node of the batch. -/
def writeNode (m : Moment) (key : EntityKey) : Writing Unit := do
  let (spelled, p) ← introduce m key
  if spelled then
    modify (·.addCreate (.node p))

/-- Bring an end of a relationship into the statement. -/
def introduceEnd (m : Moment) : Endpoint → Writing NodePattern
  | .entity key => do
    let (_, p) ← introduce m key
    return p
  | .id id => modifyGet (·.introduceId id)

/-- Write a relationship of the batch with its ends. -/
def writeRelationship (m : Moment) (key : EntityKey) : Writing Unit := do
  let name ← define key
  if ← modifyGet (·.place name) then
    return
  let e ← entity key
  let start ← endpoint key e .start
  let finish ← endpoint key e .finish
  let pStart ← introduceEnd m start
  let pFinish ← introduceEnd m finish
  let e ← entity key
  match e.id with
  | none =>
    let fields ← modifyGet (·.bindFields e (e.data m .graph).toList)
    modify fun d => (d.addCreate (.path pStart ⟨name, e.labels, fields⟩ pFinish)).addReturn name
  | some id =>
    modify fun d => ((d.addMatch (.path pStart ⟨name, e.labels, []⟩ pFinish)).update m name e
      id).addReturn name

/-- Write an entity of the batch. -/
def write (m : Moment) (key : EntityKey) : Writing Unit := do
  let e ← entity key
  if e.isNode then writeNode m key else writeRelationship m key

/-! ### Writing does not stop -/

variable {α β : Type} {m : Moment} {d d' d'' : Draft} {key : EntityKey} {e : Entity}
  {start finish : Endpoint}

/-- The steps end with this result and this draft, and have only handed out variables. -/
structure Succeeds (x : Writing α) (d : Draft) (a : α) (d' : Draft) : Prop where
  run : x d = .ok a d'
  naming : Naming d.store d.names d'.store d'.names

theorem Succeeds.bind {x : Writing α} {f : α → Writing β} {a : α} {b : β}
    (h : Succeeds x d a d') (h' : Succeeds (f a) d' b d'') : Succeeds (x >>= f) d b d'' where
  run := by
    simp only [Bind.bind, EStateM.bind, h.run]
    exact h'.run
  naming := h.naming.trans h'.naming

theorem succeeds_pure (a : α) : Succeeds (pure a) d a d := ⟨rfl, .refl _ _⟩

/-- A step that leaves the store alone and counts no variable. -/
theorem succeeds_modifyGet {f : Draft → α × Draft} (hstore : (f d).2.store = d.store)
    (hcount : ∀ kind, (f d).2.names.count kind = d.names.count kind) :
    Succeeds (modifyGet f) d (f d).1 (f d).2 :=
  ⟨rfl, hstore ▸ .of_count d.store hcount⟩

theorem succeeds_modify {f : Draft → Draft} (hstore : (f d).store = d.store)
    (hcount : ∀ kind, (f d).names.count kind = d.names.count kind) :
    Succeeds (modify f) d ⟨⟩ (f d) :=
  ⟨rfl, hstore ▸ .of_count d.store hcount⟩

theorem succeeds_place (d : Draft) (name : String) :
    Succeeds (modifyGet (·.place name)) d (d.place name).1 (d.place name).2 := by
  have hkeeps : (d.place name).2.store = d.store ∧ (d.place name).2.names = d.names := by
    rw [Draft.place]
    split <;> exact ⟨rfl, rfl⟩
  exact succeeds_modifyGet hkeeps.1 fun kind => by rw [hkeeps.2]

theorem succeeds_bindFields (d : Draft) (e : Entity) (fields : List (String × Value)) :
    Succeeds (modifyGet (·.bindFields e fields)) d (d.bindFields e fields).1
      (d.bindFields e fields).2 :=
  succeeds_modifyGet (d.fills_bindFields e fields).store (d.fills_bindFields e fields).count

theorem succeeds_entity (he : d.store.get? key = some e) : Succeeds (entity key) d e d :=
  ⟨by simp only [entity, he], .refl _ _⟩

theorem succeeds_endpoint {role : EndpointRole} {x : Endpoint} (hend : e.endpoint? role = some x) :
    Succeeds (endpoint key e role) d x d :=
  ⟨by simp only [endpoint, hend], .refl _ _⟩

/-- An entity that is stored is given its variable, and is read with it from then on. -/
theorem exists_succeeds_define (he : d.store.get? key = some e) :
    ∃ name d₁, d.define key e = (name, e.bindVariable name, d₁) ∧
      Succeeds (define key) d name d₁ ∧ d₁.store.get? key = some (e.bindVariable name) := by
  obtain ⟨name, d₁, hdefine, hextends, hname, -⟩ := Draft.exists_define he
  refine ⟨name, d₁, hdefine, ⟨?_, hextends.naming⟩, hextends.naming.get?_of_nameOf? he hname⟩
  simp only [define, he, hdefine]

theorem succeeds_introduce (he : d.store.get? key = some e) :
    Succeeds (introduce m key) d (d.introduce m key e).1 (d.introduce m key e).2 := by
  obtain ⟨name, d₁, hdefine, hfirst, hget⟩ := exists_succeeds_define he
  rw [introduce, Draft.introduce, hdefine]
  refine hfirst.bind (.bind (succeeds_place d₁ name) ?_)
  by_cases hplaced : name ∈ d₁.placed
  · simp only [Draft.place_of_mem hplaced]
    exact succeeds_pure _
  · simp only [Draft.place_of_not_mem hplaced, Bool.false_eq_true, if_false]
    refine .bind (succeeds_entity hget) ?_
    cases (e.bindVariable name).id with
    | none =>
      exact .bind (succeeds_bindFields _ _ _) (.bind (succeeds_modify rfl fun _ => rfl)
        (succeeds_pure _))
    | some id =>
      have hfills := Draft.fills_update
        (({ d₁ with placed := d₁.placed ++ [name] } : Draft).addMatch (.node ⟨name, [], []⟩)) m name
        (e.bindVariable name) id
      exact .bind (succeeds_modify hfills.store hfills.count) (succeeds_pure _)

theorem succeeds_writeNode (he : d.store.get? key = some e) :
    Succeeds (writeNode m key) d ⟨⟩ (d.saveNode m key e) := by
  rw [writeNode, Draft.saveNode]
  refine .bind (succeeds_introduce he) ?_
  rcases d.introduce m key e with ⟨⟨_ | _, p⟩, d₁⟩
  · exact succeeds_pure _
  · exact succeeds_modify rfl fun _ => rfl

theorem succeeds_introduceEnd {x : Endpoint} (hx : Batch.IsNodeEnd d.store x) :
    Succeeds (introduceEnd m x) d (d.introduceEnd m (some x)).1 (d.introduceEnd m (some x)).2 := by
  cases x with
  | id id => exact ⟨rfl, (d.extends_introduceId id).1.naming⟩
  | entity key =>
    obtain ⟨e, he, -⟩ := hx key rfl
    simp only [introduceEnd, Draft.introduceEnd, he]
    exact .bind (succeeds_introduce he) (succeeds_pure _)

/-- The ends of a relationship are nodes when they are looked at, and the relationship itself has
kept its variable when it is read once more. -/
theorem succeeds_writeRelationship (he : d.store.get? key = some e)
    (hstart : e.endpoint? .start = some start) (hfinish : e.endpoint? .finish = some finish)
    (hstartNode : Batch.IsNodeEnd d.store start) (hfinishNode : Batch.IsNodeEnd d.store finish) :
    Succeeds (writeRelationship m key) d ⟨⟩ (d.saveRelationship m key e) := by
  obtain ⟨name, d₁, hdefine, hfirst, hget⟩ := exists_succeeds_define he
  have hends : ∀ role, (e.bindVariable name).endpoint? role = e.endpoint? role := fun _ => rfl
  rw [writeRelationship, Draft.saveRelationship, hdefine]
  refine hfirst.bind (.bind (succeeds_place d₁ name) ?_)
  by_cases hplaced : name ∈ d₁.placed
  · simp only [Draft.place_of_mem hplaced]
    exact succeeds_pure _
  · simp only [Draft.place_of_not_mem hplaced, Bool.false_eq_true, if_false, hends, hstart, hfinish]
    have hpStart := succeeds_introduceEnd (m := m) (d := { d₁ with placed := d₁.placed ++ [name] })
      (hstartNode.of_naming hfirst.naming)
    rcases hrunStart : Draft.introduceEnd { d₁ with placed := d₁.placed ++ [name] } m (some start)
      with ⟨pStart, d₂⟩
    rw [hrunStart] at hpStart
    have hpFinish := succeeds_introduceEnd (m := m) (d := d₂)
      (hfinishNode.of_naming (hfirst.naming.trans hpStart.naming))
    rcases hrunFinish : d₂.introduceEnd m (some finish) with ⟨pFinish, d₃⟩
    rw [hrunFinish] at hpFinish
    have hnaming := hpStart.naming.trans hpFinish.naming
    have hname : d₁.store.nameOf? key = some name := Store.nameOf?_of_get? hget
    have hget₃ : d₃.store.get? key = some (e.bindVariable name) :=
      hnaming.get?_of_nameOf? (e := e.bindVariable name) hget (hnaming.keeps key name hname)
    refine .bind (succeeds_entity hget) (.bind (succeeds_endpoint hstart)
      (.bind (succeeds_endpoint hfinish) (.bind hpStart (.bind hpFinish
        (.bind (succeeds_entity hget₃) ?_)))))
    cases (e.bindVariable name).id with
    | none => exact .bind (succeeds_bindFields _ _ _) (succeeds_modify rfl fun _ => rfl)
    | some id =>
      have hfills := Draft.fills_update
        (d₃.addMatch (.path pStart ⟨name, (e.bindVariable name).labels, []⟩ pFinish)) m name
        (e.bindVariable name) id
      exact succeeds_modify hfills.store hfills.count

theorem succeeds_write (h : Batch.Accepted d.store key) :
    Succeeds (write m key) d ⟨⟩ (d.save m key) := by
  obtain ⟨e, he, hnode | ⟨start, finish, hstart, hfinish, hstartNode, hfinishNode⟩⟩ := h
  · rw [write, Draft.save, he]
    refine .bind (succeeds_entity he) ?_
    simp only [hnode, if_true]
    exact succeeds_writeNode he
  · rw [write, Draft.save, he]
    refine .bind (succeeds_entity he) ?_
    simp only [Entity.isNode_eq_false_of_endpoint? hstart, Bool.false_eq_true, if_false]
    exact succeeds_writeRelationship he hstart hfinish hstartNode hfinishNode

/-- Writing a batch whose entities can be saved: what is written leaves the others as they are. -/
theorem succeeds_forM_write {keys : List EntityKey}
    (h : ∀ key ∈ keys, Batch.Accepted d.store key) :
    Succeeds (keys.forM (write m)) d ⟨⟩ (keys.foldl (fun d key => d.save m key) d) := by
  induction keys generalizing d with
  | nil => exact succeeds_pure _
  | cons key rest ih =>
    have hkey := succeeds_write (m := m) (h key List.mem_cons_self)
    exact hkey.bind (ih fun k hk => (h k (List.mem_cons_of_mem key hk)).of_naming hkey.naming)

end Writing

/-! ### Saving a batch -/

/-- Why there is no statement: the batch is refused, or writing it stops. -/
inductive SaveFault where
  | refused (err : MapperError)
  | stopped (fault : WriteFault)

/-- Check a batch and write it. What has been done when writing stops is not taken back. -/
def writeSave (m : Moment) (store : Store) (names : Names) (keys : List EntityKey) :
    Except SaveFault Statement × Store × Names :=
  match Batch.check store keys with
  | .error err => (.error (.refused err), store, names)
  | .ok () =>
    match keys.forM (Writing.write m) { store, names : Draft } with
    | .ok _ d => (.ok d.clauses.toStatement, d.store, d.names)
    | .error fault d => (.error (.stopped fault), d.store, d.names)

/-- What saving a batch comes to. -/
structure SavesAccepted (m : Moment) (store : Store) (names : Names) (keys : List EntityKey) :
    Prop where
  /-- There is a statement exactly if there is something to save and all of it can be saved. -/
  ok_iff : (∃ statement, (composeSave m store names keys).outcome = .ok statement) ↔
    keys ≠ [] ∧ ∀ key ∈ keys, Batch.Accepted store key
  /-- The error is that of the first entity that cannot be saved. -/
  error_iff : ∀ err, (composeSave m store names keys).outcome = .error err ↔
    Batch.RefusedFirst store keys err
  /-- After an error everything is as before, the variables and the names too. -/
  unchanged : ∀ err, (composeSave m store names keys).outcome = .error err →
    (composeSave m store names keys).store = store ∧ (composeSave m store names keys).names = names
  /-- Writing step by step comes to the same: it does not stop once the check has passed. -/
  stepwise : writeSave m store names keys =
    ((composeSave m store names keys).outcome.mapError .refused,
      (composeSave m store names keys).store, (composeSave m store names keys).names)

/-- **A batch is saved as a whole or refused as a whole.** It is saved if it is not empty, all its
keys are stored, and its relationships have two ends that are bare ids or stored nodes; otherwise
the first key that is at fault decides on the error, and nothing has happened. -/
theorem composeSave_accepts (m : Moment) (store : Store) (names : Names) (keys : List EntityKey) :
    SavesAccepted m store names keys := by
  cases hcheck : Batch.check store keys with
  | error err =>
    have hsave : composeSave m store names keys = ⟨.error err, store, names⟩ := by
      simp only [composeSave, hcheck]
    have hwrite : writeSave m store names keys = (.error (.refused err), store, names) := by
      simp only [writeSave, hcheck]
    constructor
    case ok_iff =>
      rw [hsave, ← Batch.check_eq_ok_iff, hcheck]
      simp
    case error_iff =>
      intro err'
      rw [hsave, ← Batch.check_eq_error_iff, hcheck, Except.error.injEq, Except.error.injEq]
    case unchanged =>
      intro _ _
      rw [hsave]
      exact ⟨rfl, rfl⟩
    case stepwise =>
      rw [hsave, hwrite]
      rfl
  | ok u =>
    obtain ⟨hne, haccepted⟩ := Batch.check_eq_ok_iff.mp hcheck
    have hsave : composeSave m store names keys = _ := Batch.composeSave_eq hcheck
    have hrun := (Writing.succeeds_forM_write (m := m) (d := { store, names }) haccepted).run
    constructor
    case ok_iff =>
      rw [hsave]
      exact iff_of_true ⟨_, rfl⟩ ⟨hne, haccepted⟩
    case error_iff =>
      intro err
      rw [hsave, ← Batch.check_eq_error_iff, hcheck]
      simp
    case unchanged =>
      intro err herror
      rw [hsave] at herror
      simp at herror
    case stepwise =>
      rw [hsave]
      simp only [writeSave, hcheck, hrun]
      rfl

/-- A person and a relationship that has a start only. -/
example : (composeSave .epoch
    ⟨[Entity.node "Person" ["Person"] (.empty true),
      Entity.relationship "Knows" [] (some (.entity ⟨0⟩)) none (.empty true)]⟩ .fresh
    [⟨0⟩, ⟨1⟩]).outcome = .error (.argument (.endpointMissing "Knows" ⟨1⟩ .finish)) := by
  rfl

end GraphMapping
