import GraphMapping.Proofs.Statement.SaveBatch
import GraphMapping.Proofs.Statement.Composing

/-!
# What statements are composed from

A statement is composed from the entities that it mentions, and from names. Whatever becomes of
another entity, the same statement is composed, the same names are handed out, and the other entity
is left as it has become. Nor does it matter when a statement is composed, as long as no data
depends on the moment.

## Main definitions

* `Draft.modify`: the draft with a changed entity in its store.
* `Entity.IsConstant`: data that does not depend on the moment.
* `Property.isFixed`: a property without producers, whose data does not.
* `Store.Timeless`: entities whose data is the same at two moments.

## Main results

* `composeSave_modify`, `composeDelete_modify`: a change of an entity that is not mentioned.
* `composeSave_congr`: composing at another moment.
-/

namespace GraphMapping

variable {m m' : Moment} {store store' : Store} {names names' : Names} {key other : EntityKey}
  {f : Entity → Entity} {e : Entity}

theorem Store.modify_comm (h : key ≠ other) (g : Entity → Entity) :
    (store.modify other f).modify key g = (store.modify key g).modify other f := by
  refine ext_get? fun k => ?_
  by_cases hkey : k = key
  · subst hkey
    rw [get?_modify_self, get?_modify_of_ne _ h, get?_modify_of_ne _ h, get?_modify_self]
  · rw [get?_modify_of_ne _ hkey]
    by_cases hother : k = other
    · subst hother
      rw [get?_modify_self, get?_modify_self, get?_modify_of_ne _ hkey]
    · rw [get?_modify_of_ne _ hother, get?_modify_of_ne _ hother, get?_modify_of_ne _ hkey]

/-! ### Changes of other entities -/

namespace Draft

variable {d : Draft}

/-- The draft with a changed entity in its store. -/
def modify (other : EntityKey) (f : Entity → Entity) (d : Draft) : Draft :=
  { d with store := d.store.modify other f }

theorem bindFields_modify (e : Entity) (fields : List (String × Value)) :
    (d.modify other f).bindFields e fields = (d.bindFields e fields).map id (modify other f) := by
  induction fields generalizing d with
  | nil => rfl
  | cons pair rest ih =>
    have hrest := ih (d := { d with names := (d.names.paramFor e pair.1).2 }.bindParam
      (d.names.paramFor e pair.1).1 pair.2)
    exact congrArg (Prod.map (List.cons (pair.1, (d.names.paramFor e pair.1).1)) id) hrest

theorem update_modify (name : String) (e : Entity) (id : Int64) :
    (d.modify other f).update m name e id = (d.update m name e id).modify other f := by
  rw [update, bindFields_modify]
  rfl

theorem place_modify (name : String) :
    (d.modify other f).place name = (d.place name).map id (modify other f) := by
  rw [place, place, apply_ite (Prod.map id (modify other f))]
  rfl

theorem define_modify (h : key ≠ other) (e : Entity) : (d.modify other f).define key e =
    (d.define key e).map id (Prod.map id (modify other f)) := by
  simp only [define, modify, Prod.map, id, Store.modify_comm h]

theorem introduce_modify (h : key ≠ other) (e : Entity) :
    (d.modify other f).introduce m key e = (d.introduce m key e).map id (modify other f) := by
  rw [introduce, introduce, define_modify h]
  rcases d.define key e with ⟨name, bound, d₁⟩
  simp only [Prod.map, id, place_modify]
  rcases d₁.place name with ⟨_ | _, d₂⟩
  · cases bound.id with
    | none =>
      simp only [bindFields_modify]
      rfl
    | some id =>
      have hupdate : ((d₂.addMatch (.node ⟨name, [], []⟩)).modify other f).update m name bound id =
          ((d₂.addMatch (.node ⟨name, [], []⟩)).update m name bound id).modify other f :=
        update_modify name bound id
      exact congrArg (fun d : Draft => ((false, NodePattern.mk name [] []), d.addReturn name))
        hupdate
  · rfl

theorem saveNode_modify (h : key ≠ other) (e : Entity) :
    (d.modify other f).saveNode m key e = (d.saveNode m key e).modify other f := by
  rw [saveNode, saveNode, introduce_modify h]
  rcases d.introduce m key e with ⟨⟨_ | _, p⟩, d₁⟩ <;> rfl

theorem introduceId_modify (id : Int64) :
    (d.modify other f).introduceId id =
      (d.introduceId id).map (fun p => p) (modify other f) := by
  have hids : (d.modify other f).boundIds = d.boundIds := rfl
  rw [introduceId, introduceId, hids]
  cases d.boundIds.lookup id <;> rfl

theorem introduceEnd_modify {x : Option Endpoint} (h : x ≠ some (.entity other)) :
    (d.modify other f).introduceEnd m x = (d.introduceEnd m x).map id (modify other f) := by
  rcases x with _ | key | id
  · rfl
  · have hne : key ≠ other := fun heq => h (by rw [heq])
    have hsame : (d.modify other f).store.get? key = d.store.get? key :=
      Store.get?_modify_of_ne d.store hne f
    simp only [introduceEnd, hsame]
    cases d.store.get? key with
    | none => rfl
    | some e =>
      simp only [introduce_modify hne]
      rfl
  · exact introduceId_modify id

theorem saveRelationship_modify (h : key ≠ other)
    (hends : ∀ role, e.endpoint? role ≠ some (.entity other)) :
    (d.modify other f).saveRelationship m key e = (d.saveRelationship m key e).modify other f := by
  obtain ⟨name, names, hdefine⟩ := d.names.exists_define e
  have hopen : d.define key e = (name, e.bindVariable name,
      { d with store := d.store.modify key fun _ => e.bindVariable name, names }) := by
    rw [define, hdefine]
  rw [saveRelationship, saveRelationship, define_modify h, hopen]
  generalize { d with store := d.store.modify key fun _ => e.bindVariable name, names } = d₁
  simp only [Prod.map, id, place_modify]
  rcases d₁.place name with ⟨_ | _, d₂⟩
  · have hstart : (e.bindVariable name).endpoint? .start ≠ some (.entity other) := hends .start
    have hfinish : (e.bindVariable name).endpoint? .finish ≠ some (.entity other) := hends .finish
    simp only [introduceEnd_modify hstart, Prod.map, id]
    rcases d₂.introduceEnd m _ with ⟨start, d₃⟩
    simp only [introduceEnd_modify hfinish, Prod.map, id]
    rcases d₃.introduceEnd m _ with ⟨finish, d₄⟩
    cases (e.bindVariable name).id with
    | none =>
      simp only [bindFields_modify]
      rfl
    | some id =>
      have hupdate : ∀ d : Draft, (d.modify other f).update m name (e.bindVariable name) id =
          (d.update m name (e.bindVariable name) id).modify other f := fun _ => update_modify _ _ _
      exact congrArg (Draft.addReturn · name) (hupdate (d₄.addMatch _))
  · rfl

theorem save_modify (h : key ≠ other) (hends : ∀ e, d.store.get? key = some e → ∀ role,
    e.endpoint? role ≠ some (.entity other)) :
    (d.modify other f).save m key = (d.save m key).modify other f := by
  have hsame : (d.modify other f).store.get? key = d.store.get? key :=
    Store.get?_modify_of_ne d.store h f
  rw [save, save, hsame]
  cases he : d.store.get? key with
  | none => rfl
  | some e =>
    dsimp only
    rw [saveNode_modify h, saveRelationship_modify h (hends e he)]
    split <;> rfl

end Draft

/-! ### Statements -/

theorem Batch.checkKey_modify (h : key ≠ other) (hends : ∀ e, store.get? key = some e → ∀ role,
    e.endpoint? role ≠ some (.entity other)) :
    checkKey (store.modify other f) key = checkKey store key := by
  rw [checkKey, checkKey, Store.get?_modify_of_ne store h]
  cases he : store.get? key with
  | none => rfl
  | some e =>
    have hend : ∀ role, checkEnd (store.modify other f) key e role = checkEnd store key e role := by
      intro role
      have hnot := hends e he role
      rw [checkEnd, checkEnd]
      rcases hend : e.endpoint? role with _ | k | id
      · rfl
      · have hne : k ≠ other := fun heq => hnot (by rw [hend, heq])
        simp only [Store.get?_modify_of_ne store hne]
      · rfl
    simp only [hend]

/-- Saving an entity composes the same statement when another one has changed. A statement is made
of the entity and its ends, so the other one has to be none of these. -/
theorem composeSave_modify (h : key ≠ other) (hends : ∀ e, store.get? key = some e → ∀ role,
    e.endpoint? role ≠ some (.entity other)) :
    composeSave m (store.modify other f) names [key] =
      { composeSave m store names [key] with
        store := (composeSave m store names [key]).store.modify other f } := by
  have hcheck : Batch.check (store.modify other f) [key] = Batch.check store [key] := by
    have hone : ∀ store, Batch.check store [key] = (Batch.checkKey store key).bind pure :=
      fun _ => rfl
    rw [hone, hone, Batch.checkKey_modify h hends]
  rw [composeSave, composeSave, hcheck]
  cases Batch.check store [key] with
  | error err => rfl
  | ok u =>
    have hsave : (Draft.modify other f { store, names }).save m key =
        (Draft.save { store, names } m key).modify other f := Draft.save_modify h hends
    exact congrArg (fun d : Draft => Composed.mk (.ok d.clauses.toStatement) d.store d.names) hsave

theorem composeDelete_modify (h : key ≠ other) (detach : Bool) :
    composeDelete (store.modify other f) names [key] detach =
      { composeDelete store names [key] detach with
        store := (composeDelete store names [key] detach).store.modify other f } := by
  have hcollect : collectDeletion (store.modify other f) names {} [key] =
      { collectDeletion store names {} [key] with
        store := (collectDeletion store names {} [key]).store.modify other f } := by
    rw [collectDeletion, collectDeletion, Store.get?_modify_of_ne store h]
    cases store.get? key with
    | none => rfl
    | some e =>
      dsimp only
      rw [Store.modify_comm h]
      cases (names.define e).2.1.id <;> rfl
  rw [composeDelete, composeDelete, hcollect]

/-! ### Other moments -/

/-- Neither what is assigned to the property nor its default depends on the moment. -/
def Property.IsConstant (p : Property) : Prop :=
  (∀ s, p.assigned = some s → s.IsConstant) ∧ ∀ s, p.standard = some s → s.IsConstant

theorem Property.IsConstant.value {p : Property} (h : p.IsConstant) (m m' : Moment) (side : Side) :
    p.value m' side = p.value m side := by
  have hread : ∀ source : Option Source, (∀ s, source = some s → s.IsConstant) →
      source.elim .null (Source.resolve m') = source.elim .null (Source.resolve m) := by
    intro source hsource
    cases source with
    | none => rfl
    | some s => exact hsource s rfl m' m
  have hraw : p.raw m' = p.raw m := hread _ h.1
  rw [Property.value, Property.value, Property.resolved, Property.resolved, hraw, hread _ h.2]

/-- All properties of the entity are constant. -/
def Entity.IsConstant (e : Entity) : Prop :=
  ∀ name p, e.properties.properties.get? name = some p → p.IsConstant

/-- The source is a value. -/
def Source.isFixed : Source → Bool
  | fixed _ => true
  | producer _ => false

theorem Source.isConstant_of_isFixed {s : Source} (h : s.isFixed = true) : s.IsConstant := by
  cases s with
  | fixed value => exact fun _ _ => rfl
  | producer p => exact absurd h Bool.false_ne_true

/-- The property has no producers. -/
def Property.isFixed (p : Property) : Bool :=
  p.assigned.all Source.isFixed && p.standard.all Source.isFixed

theorem Property.isConstant_of_isFixed {p : Property} (h : p.isFixed = true) : p.IsConstant := by
  rw [isFixed, Bool.and_eq_true, Option.all_eq_true, Option.all_eq_true] at h
  exact ⟨fun s hs => Source.isConstant_of_isFixed (h.1 s hs),
    fun s hs => Source.isConstant_of_isFixed (h.2 s hs)⟩

/-- Where there are no producers, all entities are constant. -/
theorem Store.isConstant_of_isFixed (h : (store.entities.all fun e =>
    e.properties.properties.toList.all (·.2.isFixed)) = true) (he : store.get? key = some e) :
    e.IsConstant := by
  intro name p hp
  have hentity := List.all_eq_true.mp h e (List.mem_of_getElem? he)
  exact Property.isConstant_of_isFixed
    (List.all_eq_true.mp hentity (name, p) (Dict.get?_eq_some_iff.mp hp))

theorem Entity.IsConstant.data (h : e.IsConstant) (m m' : Moment) (side : Side) :
    e.data m' side = e.data m side := by
  have hvalues : (e.properties.properties.map fun _ p => p.value m' side) =
      e.properties.properties.map fun _ p => p.value m side := by
    refine Dict.ext (List.map_congr_left fun entry hentry => ?_)
    have hentry' := (Dict.get?_eq_some_iff (d := e.properties.properties)).mpr hentry
    exact congrArg (Prod.mk entry.1) ((h entry.1 entry.2 hentry').value m m' side)
  rw [Entity.data, Bag.data, hvalues]
  rfl

/-- The entities have the same data at both moments. -/
def Store.Timeless (m m' : Moment) (store : Store) : Prop :=
  ∀ key e, store.get? key = some e → e.data m' .graph = e.data m .graph

/-- Handing out variables does not change data. -/
theorem Store.Timeless.of_naming (h : store.Timeless m m')
    (hnaming : Naming store names store' names') : store'.Timeless m m' := by
  intro key e' he'
  obtain ⟨e, he, hsame⟩ := Endpoint.exists_of_same hnaming.same he'
  have hproperties : e.properties = e'.properties := congrArg (fun e => e.properties) hsame
  have hdata := h key e he
  rwa [Entity.data, Entity.data, hproperties] at hdata

namespace Draft

variable {d : Draft}

theorem introduce_congr (h : e.data m' .graph = e.data m .graph) :
    d.introduce m' key e = d.introduce m key e := by
  obtain ⟨name, names, hdefine⟩ := d.names.exists_define e
  have hbound : (e.bindVariable name).data m' .graph = (e.bindVariable name).data m .graph := h
  simp only [introduce, define, hdefine, update, hbound]

theorem introduceEnd_congr (h : d.store.Timeless m m') (x : Option Endpoint) :
    d.introduceEnd m' x = d.introduceEnd m x := by
  rcases x with _ | key | id
  · rfl
  · rw [introduceEnd, introduceEnd]
    cases he : d.store.get? key with
    | none => rfl
    | some e => simp only [introduce_congr (h key e he)]
  · rfl

theorem extends_introduceEnd (m : Moment) (x : Option Endpoint) :
    d.Extends (d.introduceEnd m x).2 := by
  rcases x with _ | key | id
  · exact .refl d
  · rw [introduceEnd]
    cases he : d.store.get? key with
    | none => exact .refl d
    | some e => exact (mentioned_introduce he m).1.extended
  · exact (d.extends_introduceId id).1

theorem store_place (d : Draft) (name : String) : (d.place name).2.store = d.store := by
  rw [place]
  split <;> rfl

theorem saveRelationship_congr (h : d.store.Timeless m m') (he : d.store.get? key = some e) :
    d.saveRelationship m' key e = d.saveRelationship m key e := by
  obtain ⟨name, d₁, hdefine, hextends, -⟩ := exists_define he
  have hbound : (e.bindVariable name).data m' .graph = (e.bindVariable name).data m .graph :=
    h key e he
  have h₁ : (d₁.place name).2.store.Timeless m m' := by
    rw [store_place]
    exact h.of_naming hextends.naming
  rw [saveRelationship, saveRelationship, hdefine]
  dsimp only
  rcases hplace : d₁.place name with ⟨_ | _, d₂⟩
  · rw [hplace] at h₁
    have hstart := d₂.extends_introduceEnd m ((e.bindVariable name).endpoint? .start)
    have h₂ := h₁.of_naming hstart.naming
    simp only [introduceEnd_congr h₁, introduceEnd_congr h₂, update, hbound]
  · rfl

theorem save_congr (h : d.store.Timeless m m') (key : EntityKey) :
    d.save m' key = d.save m key := by
  rw [save, save]
  cases he : d.store.get? key with
  | none => rfl
  | some e =>
    have hnode : d.saveNode m' key e = d.saveNode m key e := by
      rw [saveNode, saveNode, introduce_congr (h key e he)]
    simp only [hnode, saveRelationship_congr h he]

end Draft

/-- Saving an entity composes the same statement at another moment. Producers are all that sees the
moment, so it is enough that the entities have the same data at both. -/
theorem composeSave_congr (h : store.Timeless m m') (names : Names) (key : EntityKey) :
    composeSave m' store names [key] = composeSave m store names [key] := by
  rw [composeSave, composeSave, List.foldl_cons, List.foldl_cons,
    Draft.save_congr (d := { store, names }) h, List.foldl_nil, List.foldl_nil]

end GraphMapping
