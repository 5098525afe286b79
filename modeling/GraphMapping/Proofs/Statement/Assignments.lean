import GraphMapping.Proofs.Entity.Removals
import GraphMapping.Proofs.Statement.Composing
import GraphMapping.Proofs.Statement.Updates

/-!
# How often a field is assigned

A persisted entity is written once in a save, by an update. It assigns the fields that have values,
and then sets the removed ones to null. So a field is assigned at most twice, and twice only if it
has a value and was removed, in this order: the null is what stays.

That no two updates write the same variable takes nothing for granted about the variables that are
in the store, as a variable gets its place only once. What the one update of an entity assigns to
its variable is read off the parts of the batch.

## Main definitions

* `Update`: the assignments to one variable.
* `Draft.Updates`: from a draft to a later one, updates have been written.
* `Clauses.assignedTo`: the assignments to a field of a variable.

## Main results

* `Update.filter_assigned`: what an update assigns to a field.
* `Draft.exists_updates_save`: saving an entity writes updates.
* `Draft.Follows.assignedTo_of_value`: what is assigned to a field that has a value.
* `composeSave_assigns_once`: when a field is assigned twice.
* `composeSave_nulls_assigned`: a name that is assigned and then set to null.
-/

namespace GraphMapping

/-! ### Updates -/

/-- The assignments that bring a persisted entity to its data. -/
structure Update where
  name : String
  entity : Entity
  /-- The fields that have values, with their parameters. -/
  fields : List FieldParam

namespace Update

/-- The fields with values are assigned first, then the removed ones are set to null. -/
def assigned (u : Update) : List Assignment :=
  u.fields.map (fun pair => ⟨u.name, pair.1, some pair.2⟩) ++
    u.entity.deleted.map (⟨u.name, ·, none⟩)

/-- The update is that of a persisted entity of the store, whatever its variable is. -/
structure IsOf (u : Update) (m : Moment) (store : Store) : Prop where
  stored : ∃ key, store.releaseVariables.get? key = some u.entity.releaseVariable
  persisted : u.entity.id.isSome = true
  fields : u.fields.map Prod.fst = (u.entity.data m .graph).names

variable {u : Update} {field param : String}

theorem name_of_mem_assigned {a : Assignment} (h : a ∈ u.assigned) : a.name = u.name := by
  rcases List.mem_append.mp h with h | h
  · obtain ⟨pair, -, rfl⟩ := List.mem_map.mp h
    rfl
  · obtain ⟨field, -, rfl⟩ := List.mem_map.mp h
    rfl

theorem mem_fields_of_mem_assigned (h : ⟨u.name, field, some param⟩ ∈ u.assigned) :
    (field, param) ∈ u.fields := by
  rcases List.mem_append.mp h with h | h
  · obtain ⟨⟨_, _⟩, hmem, heq⟩ := List.mem_map.mp h
    obtain ⟨-, rfl, hsome⟩ := Assignment.mk.inj heq
    obtain rfl := Option.some.inj hsome
    exact hmem
  · obtain ⟨other, -, heq⟩ := List.mem_map.mp h
    cases (Assignment.mk.inj heq).2.2

/-- What an update assigns to a field: its value, and null if it was removed. -/
theorem filter_assigned (hdeleted : u.entity.deleted.Nodup) (field : String) :
    u.assigned.filter (·.field = field) =
      (u.fields.filter (·.1 = field)).map (fun pair => ⟨u.name, pair.1, some pair.2⟩) ++
        if field ∈ u.entity.deleted then [⟨u.name, field, none⟩] else [] := by
  have hnulls : u.entity.deleted.filter (· = field) =
      if field ∈ u.entity.deleted then [field] else [] := by
    rw [List.filter_eq, hdeleted.count]
    split <;> rfl
  rw [assigned, List.filter_append, List.filter_map, List.filter_map]
  refine congrArg (_ ++ ·) ?_
  change (u.entity.deleted.filter (· = field)).map _ = _
  rw [hnulls]
  split <;> rfl

theorem filter_fields (hfields : (u.fields.map Prod.fst).Nodup) (hmem : (field, param) ∈ u.fields) :
    u.fields.filter (·.1 = field) = [(field, param)] := by
  have hown : ∀ pair : FieldParam, ∀ other ∈ [pair], other.1 = pair.1 := by
    intro pair other hother
    rw [List.mem_singleton.mp hother]
  have hsplit := filter_flatMap_of_nodup hown hfields hmem
  rwa [List.flatMap_singleton'] at hsplit

/-- A field that has a value is assigned once, or twice if it was removed. -/
theorem filter_assigned_of_mem (hdeleted : u.entity.deleted.Nodup)
    (hfields : (u.fields.map Prod.fst).Nodup) (hmem : (field, param) ∈ u.fields) :
    u.assigned.filter (·.field = field) =
      ⟨u.name, field, some param⟩ ::
        if field ∈ u.entity.deleted then [⟨u.name, field, none⟩] else [] := by
  rw [filter_assigned hdeleted, filter_fields hfields hmem]
  rfl

/-- A field that is assigned more than once has a value and was removed. -/
theorem of_one_lt_length (hdeleted : u.entity.deleted.Nodup)
    (hfields : (u.fields.map Prod.fst).Nodup)
    (h : 1 < (u.assigned.filter (·.field = field)).length) :
    ∃ param, (field, param) ∈ u.fields ∧ field ∈ u.entity.deleted := by
  by_cases hfield : field ∈ u.fields.map Prod.fst
  · obtain ⟨⟨_, param⟩, hmem, rfl⟩ := List.mem_map.mp hfield
    rw [filter_assigned_of_mem hdeleted hfields hmem] at h
    refine ⟨param, hmem, ?_⟩
    by_contra hnot
    rw [if_neg hnot] at h
    exact Nat.lt_irrefl 1 h
  · have hnone : u.fields.filter (·.1 = field) = [] := by
      rw [List.filter_eq_nil_iff]
      intro pair hpair heq
      exact hfield (List.mem_map.mpr ⟨pair, hpair, of_decide_eq_true heq⟩)
    rw [filter_assigned hdeleted, hnone, List.map_nil, List.nil_append] at h
    split at h
    · exact absurd h (Nat.lt_irrefl 1)
    · exact absurd h (Nat.not_lt_zero 1)

end Update

/-! ### What drafting writes -/

namespace Draft

variable {m : Moment} {d d' d'' : Draft} {us us' : List Update} {key : EntityKey} {e : Entity}

/-- From a draft to a later one, updates have been written: for entities of the store, and to
variables that had no place before and have one now. -/
structure Updates (m : Moment) (d : Draft) (us : List Update) (d' : Draft) : Prop where
  same : d'.store.releaseVariables = d.store.releaseVariables
  assigned : d'.clauses.assigned = d.clauses.assigned ++ us.flatMap Update.assigned
  placed : d.placed ⊆ d'.placed
  names : ∀ u ∈ us, u.name ∉ d.placed ∧ u.name ∈ d'.placed
  distinct : (us.map (·.name)).Nodup
  isOf : ∀ u ∈ us, u.IsOf m d.store

namespace Updates

theorem of_eq (hsame : d'.store.releaseVariables = d.store.releaseVariables)
    (hassigned : d'.clauses.assigned = d.clauses.assigned) (hplaced : d.placed ⊆ d'.placed) :
    Updates m d [] d' :=
  ⟨hsame, by rw [hassigned]; simp, hplaced, nofun, .nil, nofun⟩

theorem refl (d : Draft) : Updates m d [] d := .of_eq rfl rfl fun _ h => h

theorem trans (h : Updates m d us d') (h' : Updates m d' us' d'') :
    Updates m d (us ++ us') d'' where
  same := h'.same.trans h.same
  assigned := by rw [h'.assigned, h.assigned, List.flatMap_append, List.append_assoc]
  placed := fun _ hname => h'.placed (h.placed hname)
  names u hu := by
    rcases List.mem_append.mp hu with hu | hu
    · exact ⟨(h.names u hu).1, h'.placed (h.names u hu).2⟩
    · exact ⟨fun hname => (h'.names u hu).1 (h.placed hname), (h'.names u hu).2⟩
  distinct := by
    rw [List.map_append, List.nodup_append]
    refine ⟨h.distinct, h'.distinct, ?_⟩
    rintro name hname other hother rfl
    obtain ⟨u, hu, rfl⟩ := List.mem_map.mp hname
    obtain ⟨u', hu', heq⟩ := List.mem_map.mp hother
    exact (h'.names u' hu').1 (heq ▸ (h.names u hu).2)
  isOf u hu := by
    rcases List.mem_append.mp hu with hu | hu
    · exact h.isOf u hu
    · obtain ⟨hstored, hpersisted, hfields⟩ := h'.isOf u hu
      exact ⟨h.same ▸ hstored, hpersisted, hfields⟩

theorem then_eq (h : Updates m d us d') (hsame : d''.store = d'.store)
    (hassigned : d''.clauses.assigned = d'.clauses.assigned) (hplaced : d''.placed = d'.placed) :
    Updates m d us d'' := by
  have hlast : Updates m d' [] d'' :=
    .of_eq (congrArg Store.releaseVariables hsame) hassigned fun _ hname => hplaced ▸ hname
  exact us.append_nil ▸ h.trans hlast

theorem addMatch (h : Updates m d us d') (p : Pattern) : Updates m d us (d'.addMatch p) :=
  h.then_eq rfl rfl rfl

end Updates

theorem bindFields_assigns_nothing (d : Draft) (e : Entity) (fields : List (String × Value)) :
    (d.bindFields e fields).2.clauses.assigned = d.clauses.assigned ∧
      (d.bindFields e fields).1.map Prod.fst = fields.map Prod.fst := by
  induction fields generalizing d with
  | nil => exact ⟨rfl, rfl⟩
  | cons pair rest ih =>
    obtain ⟨hassigned, hnames⟩ := ih ({ d with names := (d.names.paramFor e pair.1).2 }.bindParam
      (d.names.paramFor e pair.1).1 pair.2)
    exact ⟨hassigned, congrArg (pair.1 :: ·) hnames⟩

theorem Updates.bindFields (h : Updates m d us d') (e : Entity) (fields : List (String × Value)) :
    Updates m d us (d'.bindFields e fields).2 := by
  have hfills := d'.fills_bindFields e fields
  exact h.then_eq hfills.store (d'.bindFields_assigns_nothing e fields).1 hfills.placed

theorem exists_update (d : Draft) (m : Moment) (name : String) (e : Entity) (id : Int64) :
    ∃ fields, fields.map Prod.fst = (e.data m .graph).names ∧
      (d.update m name e id).clauses.assigned =
        d.clauses.assigned ++ (Update.mk name e fields).assigned := by
  obtain ⟨hassigned, hnames⟩ := d.bindFields_assigns_nothing e (e.data m .graph).toList
  refine ⟨(d.bindFields e (e.data m .graph).toList).1, hnames, ?_⟩
  rw [← hassigned]
  rfl

/-- The update of a variable that has just got its place. -/
theorem Updates.update (he : d.store.get? key = some e) {id : Int64} (hid : e.id = some id)
    {name : String} (hnew : name ∉ d.placed) (h : Updates m d us d')
    (hplaced : name ∈ d'.placed) (hothers : ∀ u ∈ us, u.name ≠ name) :
    ∃ u, Updates m d (us ++ [u]) (d'.update m name (e.bindVariable name) id) := by
  obtain ⟨fields, hfields, hassigned⟩ := d'.exists_update m name (e.bindVariable name) id
  have hfills := d'.fills_update m name (e.bindVariable name) id
  refine ⟨⟨name, e.bindVariable name, fields⟩, ?_⟩
  constructor
  case same => rw [hfills.store, h.same]
  case assigned =>
    rw [hassigned, h.assigned, List.flatMap_append, List.append_assoc, List.flatMap_singleton]
  case placed =>
    rw [hfills.placed]
    exact h.placed
  case names =>
    rw [hfills.placed]
    intro u hu
    rcases List.mem_append.mp hu with hu | hu
    · exact h.names u hu
    · obtain rfl := List.mem_singleton.mp hu
      exact ⟨hnew, hplaced⟩
  case distinct => exact nodup_map_concat h.distinct hothers
  case isOf =>
    intro u hu
    rcases List.mem_append.mp hu with hu | hu
    · exact h.isOf u hu
    · obtain rfl := List.mem_singleton.mp hu
      have hstored : d.store.releaseVariables.get? key = some e.releaseVariable := by
        rw [Store.get?_releaseVariables, he]
        rfl
      have hpersisted : e.id.isSome = true := by
        rw [hid]
        rfl
      exact ⟨⟨key, hstored⟩, hpersisted, hfields⟩

/-- Giving a stored entity its variable, and the variable its place, writes nothing. -/
theorem exists_updates_define (he : d.store.get? key = some e) (m : Moment) :
    ∃ name d₁, d.define key e = (name, e.bindVariable name, d₁) ∧ d₁.placed = d.placed ∧
      Updates m d [] d₁ ∧ Updates m d [] { d₁ with placed := d₁.placed ++ [name] } := by
  obtain ⟨name, d₁, hdefine, hextends, -, hplaced, hclauses⟩ := exists_define he
  have hsame := hextends.naming.same
  refine ⟨name, d₁, hdefine, hplaced, .of_eq hsame (by rw [hclauses]) ?_,
    .of_eq hsame (by rw [hclauses]) ?_⟩
  · exact fun _ hname => hplaced ▸ hname
  · exact fun _ hname => List.mem_append_left _ (hplaced ▸ hname)

theorem exists_updates_introduce (he : d.store.get? key = some e) (m : Moment) :
    ∃ us, Updates m d us (d.introduce m key e).2 := by
  obtain ⟨name, d₁, hdefine, hplaced₁, hdefined, hopened⟩ := exists_updates_define he m
  rw [introduce, hdefine]
  by_cases hplaced : name ∈ d₁.placed
  · simp only [place_of_mem hplaced]
    exact ⟨[], hdefined⟩
  · simp only [place_of_not_mem hplaced]
    cases hid : e.id with
    | none =>
      have hbound : (e.bindVariable name).id = none := hid
      simp only [hbound]
      exact ⟨[], (hopened.bindFields _ _).then_eq rfl rfl rfl⟩
    | some id =>
      have hbound : (e.bindVariable name).id = some id := hid
      simp only [hbound]
      obtain ⟨u, hu⟩ := (hopened.addMatch (.node ⟨name, [], []⟩)).update he hid
        (hplaced₁ ▸ hplaced) (List.mem_append_right _ (List.mem_singleton_self name))
        fun u hu => absurd hu List.not_mem_nil
      exact ⟨_, hu.then_eq rfl rfl rfl⟩

theorem exists_updates_introduceEnd (d : Draft) (m : Moment) (x : Option Endpoint) :
    ∃ us, Updates m d us (d.introduceEnd m x).2 := by
  cases x with
  | none => exact ⟨[], .refl d⟩
  | some x =>
    cases x with
    | id id =>
      rw [introduceEnd, introduceId]
      cases d.boundIds.lookup id <;> exact ⟨[], .of_eq rfl rfl fun _ hname => hname⟩
    | entity key =>
      rw [introduceEnd]
      cases he : d.store.get? key with
      | none => exact ⟨[], .refl d⟩
      | some e => exact exists_updates_introduce he m

theorem exists_updates_saveNode (he : d.store.get? key = some e) (m : Moment) :
    ∃ us, Updates m d us (d.saveNode m key e) := by
  obtain ⟨us, hus⟩ := exists_updates_introduce he m
  rw [saveNode]
  rcases hrun : d.introduce m key e with ⟨⟨_ | _, p⟩, d₁⟩
  · exact ⟨us, by simpa [hrun] using hus⟩
  · rw [hrun] at hus
    exact ⟨us, hus.then_eq rfl rfl rfl⟩

/-- The variable of a relationship has its place before its ends are brought in, so their updates
are to other variables. -/
theorem exists_updates_saveRelationship (he : d.store.get? key = some e) (m : Moment) :
    ∃ us, Updates m d us (d.saveRelationship m key e) := by
  obtain ⟨name, d₁, hdefine, hplaced₁, hdefined, hopened⟩ := exists_updates_define he m
  rw [saveRelationship, hdefine]
  by_cases hplaced : name ∈ d₁.placed
  · simp only [place_of_mem hplaced]
    exact ⟨[], hdefined⟩
  · simp only [place_of_not_mem hplaced]
    let opened : Draft := { d₁ with placed := d₁.placed ++ [name] }
    obtain ⟨start, hstart⟩ :=
      opened.exists_updates_introduceEnd m ((e.bindVariable name).endpoint? .start)
    obtain ⟨finish, hfinish⟩ := (opened.introduceEnd m
      ((e.bindVariable name).endpoint? .start)).2.exists_updates_introduceEnd m
        ((e.bindVariable name).endpoint? .finish)
    have hends := hstart.trans hfinish
    have hown : name ∈ opened.placed :=
      List.mem_append_right _ (List.mem_singleton_self name)
    have hothers : ∀ u ∈ start ++ finish, u.name ≠ name := fun u hu heq =>
      (hends.names u hu).1 (heq ▸ hown)
    have hall := hopened.trans hends
    cases hid : e.id with
    | none =>
      have hbound : (e.bindVariable name).id = none := hid
      simp only [hbound]
      exact ⟨_, (hall.bindFields _ _).then_eq rfl rfl rfl⟩
    | some id =>
      have hbound : (e.bindVariable name).id = some id := hid
      simp only [hbound]
      obtain ⟨u, hu⟩ := (hall.addMatch (.path _ ⟨name, e.labels, []⟩ _)).update he hid
        (hplaced₁ ▸ hplaced) (hends.placed hown) hothers
      exact ⟨_, hu.then_eq rfl rfl rfl⟩

/-- **Saving one entity** writes updates to variables that had no place before. Each of them has its
place afterwards, so that no variable is written to twice in a statement, however often the entity
is mentioned. -/
theorem exists_updates_save (d : Draft) (m : Moment) (key : EntityKey) :
    ∃ us, Updates m d us (d.save m key) := by
  rw [save]
  cases he : d.store.get? key with
  | none => exact ⟨[], .refl d⟩
  | some e =>
    dsimp only
    split
    · exact exists_updates_saveNode he m
    · exact exists_updates_saveRelationship he m

theorem exists_updates_foldl (d : Draft) (m : Moment) (keys : List EntityKey) :
    ∃ us, Updates m d us (keys.foldl (fun d key => d.save m key) d) := by
  induction keys generalizing d with
  | nil => exact ⟨[], .refl d⟩
  | cons key rest ih =>
    obtain ⟨us, hus⟩ := d.exists_updates_save m key
    obtain ⟨us', hus'⟩ := ih (d.save m key)
    exact ⟨us ++ us', hus.trans hus'⟩

end Draft

/-! ### The fields of a variable -/

/-- The assignments to a field of a variable. -/
def Clauses.assignedTo (clauses : Clauses) (name field : String) : List Assignment :=
  (clauses.assigned.filter (·.name = name)).filter (·.field = field)

namespace Batch

variable {m : Moment} {store : Store} {names : Names} {keys : List EntityKey}

/-- A field is assigned at most twice, whatever variables are in the store: with the value of a
persisted entity, and with null as it was removed from this entity. -/
theorem of_assigned_twice (hdeleted : ∀ key e, store.get? key = some e → e.deleted.Nodup)
    {name field : String}
    (h : 1 < ((draft m store names keys).clauses.assignedTo name field).length) :
    ∃ param, (draft m store names keys).clauses.assignedTo name field =
        [⟨name, field, some param⟩, ⟨name, field, none⟩] ∧
      ∃ key e, store.get? key = some e ∧ e.id.isSome = true ∧
        (e.data m .graph).contains field = true ∧ field ∈ e.deleted := by
  obtain ⟨us, hus⟩ := Draft.exists_updates_foldl { store, names } m keys
  have hassigned : (draft m store names keys).clauses.assigned = us.flatMap Update.assigned :=
    hus.assigned
  rw [Clauses.assignedTo, hassigned] at h ⊢
  -- one of the updates is to this variable, and it is the only one
  obtain ⟨a, ha⟩ := List.exists_mem_of_length_pos (Nat.zero_lt_of_lt h)
  obtain ⟨haname, -⟩ := List.mem_filter.mp (List.mem_filter.mp ha).1
  obtain ⟨u, hu, hau⟩ := List.mem_flatMap.mp haname
  obtain rfl : u.name = name := (Update.name_of_mem_assigned hau).symm.trans
    (of_decide_eq_true (List.mem_filter.mp (List.mem_filter.mp ha).1).2)
  rw [filter_flatMap_of_nodup (fun _ _ => Update.name_of_mem_assigned) hus.distinct hu] at h ⊢
  obtain ⟨⟨key, hstored⟩, hpersisted, hfields⟩ := hus.isOf u hu
  rw [Store.get?_releaseVariables] at hstored
  obtain ⟨e, he, hsame⟩ := Option.map_eq_some_iff.mp hstored
  have hlist : e.deleted = u.entity.deleted := congrArg (fun e => e.deleted) hsame
  have hnodup : u.entity.deleted.Nodup := hlist ▸ hdeleted key e he
  have hnames : (u.fields.map Prod.fst).Nodup := hfields ▸ (u.entity.data m .graph).nodup_names
  obtain ⟨param, hmem, hremoved⟩ := Update.of_one_lt_length hnodup hnames h
  refine ⟨param, ?_, key, e, he, ?_, ?_, hlist ▸ hremoved⟩
  · rw [Update.filter_assigned_of_mem hnodup hnames hmem, if_pos hremoved]
  · have hid : e.id = u.entity.id := congrArg (fun e => e.id) hsame
    rw [hid]
    exact hpersisted
  · have hfield : field ∈ (u.entity.releaseVariable.data m .graph).names :=
      hfields ▸ List.mem_map_of_mem hmem
    rw [← hsame] at hfield
    exact Dict.mem_names_iff.mp hfield

end Batch

/-- A part of a persisted entity assigns what the update of the entity does. -/
theorem Part.assigned_eq_update {m : Moment} {store : Store} {part : Part} {key : EntityKey}
    {e : Entity} {id : Int64} (hmention : part.mention = .entity key)
    (he : store.get? key = some e) (hid : e.id = some id) :
    part.assigned m store = (Update.mk part.name e (part.fieldParams m store)).assigned ∧
      (part.fieldParams m store).map Prod.fst = (e.data m .graph).names := by
  constructor
  · rw [assigned_eq hmention he hid, Update.assigned, fieldParams, List.map_map]
    rfl
  · change _ = (e.data m .graph).toList.map Prod.fst
    rw [← map_fields hmention he, fieldParams, List.map_map, List.map_map]
    rfl

namespace Draft.Follows

variable {m : Moment} {store : Store} {names : Names} {opened : Option (EntityKey × String)}
  {seen : List Endpoint} {parts : List Part} {d : Draft} {part : Part} {key : EntityKey}
  {e : Entity} {id : Int64} {field : String}

/-- A field with a value is assigned it, and nothing else unless it was removed. -/
theorem assignedTo_of_value (h : Follows m store names opened seen parts d) (hpart : part ∈ parts)
    (hmention : part.mention = .entity key) (he : store.get? key = some e) (hid : e.id = some id)
    (hdeleted : e.deleted.Nodup) {value : Value}
    (hget : (e.data m .graph).get? field = some value) :
    ∃ param, d.clauses.params.get? param = some value ∧
      d.clauses.assignedTo part.name field = ⟨part.name, field, some param⟩ ::
        if field ∈ e.deleted then [⟨part.name, field, none⟩] else [] := by
  obtain ⟨param, hassigned, hparam⟩ := h.assigns_value hpart hmention he hid hget
  obtain ⟨hupdate, hnames⟩ := Part.assigned_eq_update (m := m) hmention he hid
  refine ⟨param, hparam, ?_⟩
  rw [h.assigned] at hassigned
  have hmem : (field, param) ∈ part.fieldParams m store := by
    have hown := Part.mem_assigned_of_name h.distinct hpart hassigned rfl
    rw [hupdate] at hown
    exact Update.mem_fields_of_mem_assigned hown
  have hnodup : ((part.fieldParams m store).map Prod.fst).Nodup :=
    hnames ▸ (e.data m .graph).nodup_names
  rw [Clauses.assignedTo, h.assigned,
    filter_flatMap_of_nodup (fun _ _ => Part.name_of_mem_assigned) h.distinct hpart, hupdate]
  exact Update.filter_assigned_of_mem hdeleted hnodup hmem

end Draft.Follows

/-! ### Saves -/

open Entity (ComesBy Restored)

/-- **How often a field is assigned.** Let the entities of a store come from new ones by histories,
and save an accepted batch. A property is at the same time a removed one exactly if its history has
restored it. In the statement a field of a variable is assigned at most once, unless it is restored
and has a value in a persisted entity; then it is assigned its value first and null after that. And
as long as the variables were handed out to distinct entities, every field of a persisted entity
that has a value is assigned it, and nothing else unless it is restored. -/
theorem composeSave_assigns_once (m : Moment) {store : Store} {names : Names}
    {keys : List EntityKey} (origin : EntityKey → Entity)
    (history : EntityKey → List Entity.Command)
    (hhistory : ∀ key e, store.get? key = some e → e.ComesBy (origin key) (history key))
    (hok : Batch.check store keys = .ok ()) :
    let clauses := (Batch.draft m store names keys).clauses
    (composeSave m store names keys).outcome = .ok clauses.toStatement ∧
    (∀ key e, store.get? key = some e → ∀ field,
      (e.Clashes field ↔ Restored (origin key) (history key) field)) ∧
    (∀ name field, 1 < (clauses.assignedTo name field).length →
      ∃ param, clauses.assignedTo name field =
          [⟨name, field, some param⟩, ⟨name, field, none⟩] ∧
        ∃ key e, store.get? key = some e ∧ e.id.isSome = true ∧
          (e.data m .graph).contains field = true ∧
          Restored (origin key) (history key) field) ∧
    (store.NamedBy names → ∀ key ∈ Batch.closure store keys, ∀ e id,
      store.get? key = some e → e.id = some id →
      ∃ name, (composeSave m store names keys).store.nameOf? key = some name ∧
        ∀ field value, (e.data m .graph).get? field = some value →
          ∃ param, clauses.params.get? param = some value ∧
            (¬ Restored (origin key) (history key) field →
              clauses.assignedTo name field = [⟨name, field, some param⟩]) ∧
            (Restored (origin key) (history key) field →
              clauses.assignedTo name field =
                [⟨name, field, some param⟩, ⟨name, field, none⟩])) := by
  intro clauses
  have hdeleted : ∀ key e, store.get? key = some e → e.deleted.Nodup :=
    fun key e he => (hhistory key e he).nodup_deleted
  -- where there is a value there is a property, so a removed name is a clash
  have hrestored : ∀ key e, store.get? key = some e → ∀ field value,
      (e.data m .graph).get? field = some value →
        (field ∈ e.deleted ↔ Restored (origin key) (history key) field) := by
    intro key e he field value hget
    obtain ⟨p, hp, -⟩ := Bag.get?_data.mp hget
    have hthere : e.properties.contains field = true := by
      rw [Bag.contains, Dict.contains, hp]
      rfl
    rw [← (hhistory key e he).clashes_iff field, Entity.Clashes, hthere]
    simp
  refine ⟨?_, fun key e he => (hhistory key e he).clashes_iff, fun name field hlength => ?_,
    fun hnamed key hkey e id he hid => ?_⟩
  · rw [Batch.composeSave_eq hok]
  · obtain ⟨param, hlist, key, e, he, hid, hdata, hremoved⟩ :=
      Batch.of_assigned_twice hdeleted hlength
    obtain ⟨value, hget⟩ := Option.isSome_iff_exists.mp hdata
    exact ⟨param, hlist, key, e, he, hid, hdata, (hrestored key e he field value hget).mp hremoved⟩
  · obtain ⟨parts, h⟩ := Batch.exists_parts (m := m) hnamed hok
    obtain ⟨part, hpart, hmention, hname⟩ := h.exists_part hkey
    refine ⟨part.name, ?_, fun field value hget => ?_⟩
    · rw [Batch.composeSave_eq hok]
      exact hname
    · obtain ⟨param, hparam, hlist⟩ :=
        h.assignedTo_of_value hpart hmention he hid (hdeleted key e he) hget
      have hiff := hrestored key e he field value hget
      refine ⟨param, hparam, fun hnot => ?_, fun hyes => ?_⟩
      · rwa [if_neg (hiff.not.mpr hnot)] at hlist
      · rwa [if_pos (hiff.mpr hyes)] at hlist

/-- Guests may have any properties. -/
def guestSchema : Schema := (Schema.node "Guest").withUndefined true

/-- A guest with a nickname, who is stored. -/
def guest : Entity where
  id := some 5
  typeName := "Guest"
  labels := ["Guest"]
  shape := .node
  properties := (Bag.ofDeclared guestSchema.declared true).load [("nick", .string "Ada")]
  deleted := []
  queryVariable := none

/-- The guest after a history, in a store. -/
def guestStore (commands : List Entity.Command) : Store :=
  ⟨[commands.foldl Entity.Command.apply guest]⟩

theorem guestStore_comesBy {commands : List Entity.Command}
    (hnamed : ∀ command ∈ commands, command.IsNamed) (key : EntityKey) (e : Entity)
    (he : (guestStore commands).get? key = some e) : e.ComesBy guest commands := by
  obtain ⟨_ | n⟩ := key
  · obtain rfl := Option.some.inj he
    have hmade : guestSchema.instantiate
        { id := some 5, properties := [("nick", .string "Ada")] } = .ok guest := rfl
    exact ⟨⟨guestSchema, _, hmade⟩, hnamed, rfl⟩
  · cases he

theorem composeSave_assigns_once_guest :
    let history := [Entity.Command.remove "nick", .assign "nick" (.string "Eve")]
    let store := guestStore history
    let clauses := (Batch.draft .epoch store .fresh [⟨0⟩]).clauses
    store.NamedBy .fresh ∧ ⟨0⟩ ∈ Batch.closure store [⟨0⟩] ∧ ¬ Restored guest history "nick" ∧
    (composeSave .epoch store .fresh [⟨0⟩]).outcome = .ok clauses.toStatement ∧
    (∀ name field, 1 < (clauses.assignedTo name field).length →
      ∃ param, clauses.assignedTo name field =
          [⟨name, field, some param⟩, ⟨name, field, none⟩] ∧
        ∃ key e, store.get? key = some e ∧ e.id.isSome = true ∧
          (e.data .epoch .graph).contains field = true ∧ Restored guest history field) ∧
    ∃ name param, (composeSave .epoch store .fresh [⟨0⟩]).store.nameOf? ⟨0⟩ = some name ∧
      clauses.params.get? param = some (.string "Eve") ∧
      clauses.assignedTo name "nick" = [⟨name, "nick", some param⟩] := by
  intro history store clauses
  have hnamed : ∀ command ∈ history, command.IsNamed := by
    simp [history, Entity.Command.IsNamed]
  have hnamedBy : store.NamedBy .fresh := by
    refine Store.namedBy_of_nameOf?_eq_none ?_ .fresh
    rintro ⟨_ | n⟩ <;> rfl
  have hclosure : ⟨0⟩ ∈ Batch.closure store [⟨0⟩] := by decide
  obtain ⟨houtcome, hclashes, htwice, hall⟩ := composeSave_assigns_once .epoch (fun _ => guest)
    (fun _ => history) (guestStore_comesBy hnamed) (show Batch.check store [⟨0⟩] = .ok () from rfl)
  have hnot : ¬ Restored guest history "nick" := by
    rw [← hclashes ⟨0⟩ _ rfl "nick"]
    decide
  obtain ⟨name, hname, hfields⟩ := hall hnamedBy ⟨0⟩ hclosure _ 5 rfl rfl
  obtain ⟨param, hparam, honce, -⟩ := hfields "nick" (.string "Eve") rfl
  exact ⟨hnamedBy, hclosure, hnot, houtcome, htwice, name, param, hname, hparam, honce hnot⟩

/-- A guest's nickname is removed, and a batch of assignments gives a new one. The save writes it
and sets it to null. -/
theorem composeSave_nulls_assigned :
    let history := [Entity.Command.remove "nick", .assignAll [("nick", .string "Eve")]]
    let clauses := (Batch.draft .epoch (guestStore history) .fresh [⟨0⟩]).clauses
    guestSchema.instantiate { id := some 5, properties := [("nick", .string "Ada")] } =
        .ok guest ∧
      (history.foldl Entity.Command.apply guest).Clashes "nick" ∧
      (composeSave .epoch (guestStore history) .fresh [⟨0⟩]).outcome = .ok clauses.toStatement ∧
      clauses.assignedTo "n0" "nick" =
        [⟨"n0", "nick", some "n0_nick_0"⟩, ⟨"n0", "nick", none⟩] := by
  intro history clauses
  refine ⟨rfl, ?_, rfl, ?_⟩ <;> decide +kernel

end GraphMapping
