import GraphMapping.Proofs.Statement.SaveBatch
import GraphMapping.Statement.Delete

/-!
# What composing hands out

Composing a statement gives variables to entities that had none, and leaves everything else about
the store alone. This takes nothing for granted about the variables that are there: they may be of
any origin, and even shared. What the other modules know of distinct variables is not needed to see
that entities come out of composing as they went in.

A draft is compared with a later one by `Draft.Extends`, which every drafting function is in. A
variable gets its place at most once and is returned then, so that in the end every stored entity
that a save mentions has a variable and finds it among the returned ones.

What the clauses create is looked at in the same way. A pattern says more than a variable only for
an entity that has no id.

## Main definitions

* `Draft.Extends`: variables have been handed out, and what got a place is returned.
* `Pattern.Spells`: the pattern says more about a variable than that it is mentioned.
* `Draft.Saved`: a draft in which one entity is saved.

## Main results

* `Draft.saved_save`: saving one accepted entity.
* `collectDeletion_hands_out`: collecting what is deleted.
-/

namespace GraphMapping

/-- A stored node is one whatever its variable is. -/
theorem Batch.IsNodeEnd.of_naming {store store' : Store} {names names' : Names} {x : Endpoint}
    (h : IsNodeEnd store x) (hnaming : Naming store names store' names') : IsNodeEnd store' x := by
  intro key hkey
  obtain ⟨node, hnode, hisNode⟩ := h key hkey
  obtain ⟨node', hnode', hsame⟩ := hnaming.get? hnode
  have hkind : node'.isNode = node.isNode := congrArg (fun e => e.isNode) hsame
  exact ⟨node', hnode', hkind.trans hisNode⟩

namespace Draft

variable {m : Moment} {d d' d'' : Draft} {key : EntityKey} {e : Entity}

/-! ### Later drafts -/

/-- From a draft to a later one, variables have been handed out and what is returned stays returned.
A variable that has got a place in between is returned. -/
structure Extends (d d' : Draft) : Prop where
  naming : Naming d.store d.names d'.store d'.names
  returned : d.clauses.returned ⊆ d'.clauses.returned
  placed : ∀ name ∈ d'.placed, name ∈ d.placed ∨ name ∈ d'.clauses.returned

theorem Extends.refl (d : Draft) : d.Extends d :=
  ⟨.refl _ _, fun _ h => h, fun _ h => .inl h⟩

theorem Extends.trans (h : d.Extends d') (h' : d'.Extends d'') : d.Extends d'' where
  naming := h.naming.trans h'.naming
  returned := fun _ hname => h'.returned (h.returned hname)
  placed name hname := by
    rcases h'.placed name hname with hplaced | hreturned
    · exact (h.placed name hplaced).imp_right fun hreturned => h'.returned hreturned
    · exact .inr hreturned

/-- Only parameters have been bound and clauses other than the created ones extended. -/
structure Fills (d d' : Draft) : Prop where
  store : d'.store = d.store
  count : ∀ kind, d'.names.count kind = d.names.count kind
  placed : d'.placed = d.placed
  returned : d'.clauses.returned = d.clauses.returned
  created : d'.clauses.created = d.clauses.created

theorem Fills.trans (h : d.Fills d') (h' : d'.Fills d'') : d.Fills d'' where
  store := h'.store.trans h.store
  count kind := (h'.count kind).trans (h.count kind)
  placed := h'.placed.trans h.placed
  returned := h'.returned.trans h.returned
  created := h'.created.trans h.created

theorem count_paramFor (names : Names) (e : Entity) (field : String) (kind : EntityKind) :
    (names.paramFor e field).2.count kind = names.count kind :=
  names.count_param _ e.typeName field kind

theorem fills_bindFields (d : Draft) (e : Entity) (fields : List (String × Value)) :
    d.Fills (d.bindFields e fields).2 := by
  induction fields generalizing d with
  | nil => exact ⟨rfl, fun _ => rfl, rfl, rfl, rfl⟩
  | cons pair rest ih =>
    have hone : d.Fills ({ d with names := (d.names.paramFor e pair.1).2 }.bindParam
        (d.names.paramFor e pair.1).1 pair.2) :=
      ⟨rfl, count_paramFor d.names e pair.1, rfl, rfl, rfl⟩
    exact hone.trans (ih _)

theorem fills_update (d : Draft) (m : Moment) (name : String) (e : Entity) (id : Int64) :
    d.Fills (d.update m name e id) := by
  obtain ⟨hstore, hcount, hplaced, hreturned, hcreated⟩ :=
    d.fills_bindFields e (e.data m .graph).toList
  refine ⟨hstore, fun kind => ?_, hplaced, hreturned, hcreated⟩
  exact (count_paramFor _ e "id" kind).trans (hcount kind)

theorem exists_define (he : d.store.get? key = some e) :
    ∃ name d₁, d.define key e = (name, e.bindVariable name, d₁) ∧ d.Extends d₁ ∧
      d₁.store.nameOf? key = some name ∧ d₁.placed = d.placed ∧ d₁.clauses = d.clauses := by
  obtain ⟨name, names, hdefine⟩ := d.names.exists_define e
  refine ⟨name, { d with store := d.store.modify key fun _ => e.bindVariable name, names }, ?_,
    ⟨.define he hdefine, fun _ hname => hname, fun _ hname => .inl hname⟩,
    Store.nameOf?_modify_self he _, rfl, rfl⟩
  rw [Draft.define, hdefine]

/-! ### Mentioning nodes -/

/-- From a draft to a later one, a stored node has been mentioned by a pattern: by its variable,
which has a place, and with more than that only if it has no id. -/
structure Mentioned (d : Draft) (key : EntityKey) (e : Entity) (p : NodePattern) (d' : Draft) :
    Prop where
  extended : d.Extends d'
  name : d'.store.nameOf? key = some p.name
  placed : p.name ∈ d.placed ∨ p.name ∈ d'.clauses.returned
  spelled : e.id = none ∨ p = ⟨p.name, [], []⟩
  created : d'.clauses.created = d.clauses.created

/-- A variable that gets its place is mentioned by its pattern, and returned at the end. -/
theorem Mentioned.of_place {p : NodePattern} (hextends : d.Extends d')
    (hname : d'.store.nameOf? key = some p.name) (hclauses : d'.clauses = d.clauses)
    (hfills : ({ d' with placed := d'.placed ++ [p.name] } : Draft).Fills d'')
    (hspelled : e.id = none ∨ p = ⟨p.name, [], []⟩) :
    Mentioned d key e p (d''.addReturn p.name) := by
  obtain ⟨hstore, hcount, hplaced, hreturned, hcreated⟩ := hfills
  have hlast : p.name ∈ (d''.addReturn p.name).clauses.returned :=
    List.mem_append_right _ (List.mem_singleton_self p.name)
  have hlater : d'.Extends (d''.addReturn p.name) := by
    refine ⟨hstore ▸ .of_count d'.store hcount, fun _ hother => ?_, fun other hother => ?_⟩
    · exact List.mem_append_left _ (hreturned ▸ hother)
    · have hmem : other ∈ d'.placed ++ [p.name] := by rwa [addReturn, hplaced] at hother
      refine (List.mem_append.mp hmem).imp_right fun hsame => ?_
      exact List.mem_singleton.mp hsame ▸ hlast
  exact ⟨hextends.trans hlater, hlater.naming.keeps key p.name hname, .inr hlast, hspelled,
    hcreated.trans (congrArg Clauses.created hclauses)⟩

theorem mentioned_introduce (he : d.store.get? key = some e) (m : Moment) :
    Mentioned d key e (d.introduce m key e).1.2 (d.introduce m key e).2 ∧
      ((d.introduce m key e).1.1 = true → e.id = none) := by
  obtain ⟨name, d₁, hdefine, hextends, hname, hplaced₁, hclauses⟩ := exists_define he
  rw [introduce, hdefine]
  by_cases hplaced : name ∈ d₁.placed
  · simp only [place_of_mem hplaced]
    exact ⟨⟨hextends, hname, .inl (hplaced₁ ▸ hplaced), .inr rfl, by rw [hclauses]⟩,
      fun hflag => absurd hflag Bool.false_ne_true⟩
  · simp only [place_of_not_mem hplaced]
    cases hid : e.id with
    | none =>
      have hbound : (e.bindVariable name).id = none := hid
      simp only [hbound]
      exact ⟨.of_place hextends hname hclauses (fills_bindFields _ _ _) (.inl hid),
        fun _ => trivial⟩
    | some id =>
      have hbound : (e.bindVariable name).id = some id := hid
      simp only [hbound]
      have hmatched : ({ d₁ with placed := d₁.placed ++ [name] } : Draft).Fills
          (({ d₁ with placed := d₁.placed ++ [name] } : Draft).addMatch (.node ⟨name, [], []⟩)) :=
        ⟨rfl, fun _ => rfl, rfl, rfl, rfl⟩
      exact ⟨.of_place hextends hname hclauses (hmatched.trans (fills_update _ m name _ id))
        (.inr rfl), fun hflag => absurd hflag Bool.false_ne_true⟩

theorem extends_introduceId (d : Draft) (id : Int64) :
    d.Extends (d.introduceId id).2 ∧
      (d.introduceId id).1 = ⟨(d.introduceId id).1.name, [], []⟩ ∧
      (d.introduceId id).2.clauses.created = d.clauses.created := by
  rw [introduceId]
  cases d.boundIds.lookup id with
  | some name => exact ⟨.refl d, rfl, rfl⟩
  | none =>
    refine ⟨⟨?_, fun _ hname => hname, fun _ hname => .inl hname⟩, rfl, rfl⟩
    exact (Naming.allocate d.store d.names .node).trans
      (.of_count d.store (Names.count_param _ (d.names.allocate .node).1 genericNodeName "id"))

/-- An end is mentioned: a stored one by its variable, and by more than a variable only a stored one
without an id. -/
structure MentionedEnd (d : Draft) (x : Endpoint) (p : NodePattern) (d' : Draft) : Prop where
  extended : d.Extends d'
  created : d'.clauses.created = d.clauses.created
  stored : ∀ key, x = .entity key →
    d'.store.nameOf? key = some p.name ∧ (p.name ∈ d.placed ∨ p.name ∈ d'.clauses.returned)
  spelled : (∃ key e, x = .entity key ∧ d.store.get? key = some e ∧ e.id = none) ∨
    p = ⟨p.name, [], []⟩

theorem mentionedEnd_introduceEnd (m : Moment) {x : Endpoint} (hx : Batch.IsNodeEnd d.store x) :
    MentionedEnd d x (d.introduceEnd m (some x)).1 (d.introduceEnd m (some x)).2 := by
  cases x with
  | id id =>
    obtain ⟨hextends, hbare, hcreated⟩ := d.extends_introduceId id
    exact ⟨hextends, hcreated, nofun, .inr hbare⟩
  | entity key =>
    obtain ⟨e, he, -⟩ := hx key rfl
    obtain ⟨h, -⟩ := mentioned_introduce he m
    rw [introduceEnd, he]
    refine ⟨h.extended, h.created, fun k hk => ?_,
      h.spelled.imp_left fun hid => ⟨key, e, rfl, he, hid⟩⟩
    obtain rfl := Endpoint.entity.inj hk
    exact ⟨h.name, h.placed⟩

namespace MentionedEnd

variable {x : Endpoint} {p : NodePattern}

/-- What comes later leaves the mention as it is. -/
theorem later (h : MentionedEnd d x p d') (hextends : d'.Extends d'')
    (hcreated : d''.clauses.created = d'.clauses.created) : MentionedEnd d x p d'' where
  extended := h.extended.trans hextends
  created := hcreated.trans h.created
  stored key hkey := by
    obtain ⟨hname, hplaced⟩ := h.stored key hkey
    exact ⟨hextends.naming.keeps key p.name hname,
      hplaced.imp_right fun hreturned => hextends.returned hreturned⟩
  spelled := h.spelled

theorem earlier (h : MentionedEnd d' x p d'') (hextends : d.Extends d')
    (hcreated : d'.clauses.created = d.clauses.created) : MentionedEnd d x p d'' where
  extended := hextends.trans h.extended
  created := h.created.trans hcreated
  stored key hkey := by
    obtain ⟨hname, hplaced | hreturned⟩ := h.stored key hkey
    · refine ⟨hname, (hextends.placed p.name hplaced).imp_right fun hreturned => ?_⟩
      exact h.extended.returned hreturned
    · exact ⟨hname, .inr hreturned⟩
  spelled := by
    refine h.spelled.imp_left ?_
    rintro ⟨key, e, hkey, he, hid⟩
    obtain ⟨e₀, he₀, hsame⟩ := Endpoint.exists_of_same hextends.naming.same he
    have hid₀ : e₀.id = e.id := congrArg (fun e => e.id) hsame
    exact ⟨key, e₀, hkey, he₀, hid₀.trans hid⟩

end MentionedEnd

end Draft

/-! ### Saving one entity -/

/-- The pattern says more about the variable than that it is mentioned: it has the variable for its
relationship, or for a node with labels or fields. -/
def Pattern.Spells (name : String) : Pattern → Prop
  | .node n => n.name = name ∧ n ≠ ⟨n.name, [], []⟩
  | .path start relationship finish =>
    relationship.name = name ∨ ∃ n, (n = start ∨ n = finish) ∧ n.name = name ∧ n ≠ ⟨n.name, [], []⟩
  | .betweenAny relationship => relationship.name = name

namespace Draft

variable {m : Moment} {d d' : Draft} {key : EntityKey} {e : Entity}

/-- From a draft to a later one, an entity has been saved: variables have been handed out, those of
the entity and its stored ends are returned, and what the created patterns spell out is one of these
that has no id. -/
structure Saved (d : Draft) (key : EntityKey) (d' : Draft) : Prop where
  naming : Naming d.store d.names d'.store d'.names
  returned : ∀ k, .entity k ∈ Batch.mentioned d.store key →
    ∃ name, d'.store.nameOf? k = some name ∧ name ∈ d'.clauses.returned
  created : ∀ p ∈ d'.clauses.created, ∀ name, p.Spells name → p ∈ d.clauses.created ∨
    ∃ k e, .entity k ∈ Batch.mentioned d.store key ∧ d.store.get? k = some e ∧ e.id = none ∧
      d'.store.nameOf? k = some name

theorem saved_saveNode (he : d.store.get? key = some e) (hnode : e.isNode = true)
    (hplaced : d.placed = []) : Saved d key (d.saveNode m key e) := by
  obtain ⟨h, hflag⟩ := mentioned_introduce he m
  have hreturned := h.placed.resolve_left (by rw [hplaced]; exact List.not_mem_nil)
  have hself : .entity key ∈ Batch.mentioned d.store key := by
    rw [Batch.mentioned_of_isNode he hnode]
    exact List.mem_singleton_self _
  have hall : ∀ {d' : Draft}, d'.store = (d.introduce m key e).2.store →
      d'.clauses.returned = (d.introduce m key e).2.clauses.returned →
        ∀ k, .entity k ∈ Batch.mentioned d.store key →
          ∃ name, d'.store.nameOf? k = some name ∧ name ∈ d'.clauses.returned := by
    intro d' hstore hsame k hk
    rw [Batch.mentioned_of_isNode he hnode, List.mem_singleton] at hk
    obtain rfl := Endpoint.entity.inj hk
    exact ⟨_, hstore ▸ h.name, hsame ▸ hreturned⟩
  rw [saveNode]
  rcases hrun : d.introduce m key e with ⟨⟨_ | _, p⟩, d₁⟩
  · rw [hrun] at h hall
    exact ⟨h.extended.naming, hall rfl rfl, fun p hp _ _ => .inl (h.created ▸ hp)⟩
  · rw [hrun] at h hall hflag
    refine ⟨h.extended.naming, hall rfl rfl, fun p' hp' name hspells => ?_⟩
    rcases List.mem_append.mp hp' with hold | hnew
    · exact .inl (h.created ▸ hold)
    · obtain rfl := List.mem_singleton.mp hnew
      exact .inr ⟨key, e, hself, he, hflag rfl, hspells.1 ▸ h.name⟩

/-- A relationship has taken the only place, before its ends are mentioned. -/
structure Opened (d : Draft) (key : EntityKey) (name : String) (d' : Draft) : Prop where
  naming : Naming d.store d.names d'.store d'.names
  bound : d'.store.nameOf? key = some name
  placed : d'.placed = [name]
  created : d'.clauses.created = d.clauses.created

/-- What saving a relationship mentions, its ends with their patterns. -/
theorem entity_mem_mentioned_iff {store : Store} (he : store.get? key = some e)
    {start finish : Endpoint} (hstart : e.endpoint? .start = some start)
    (hfinish : e.endpoint? .finish = some finish) (pStart pFinish : NodePattern) (k : EntityKey) :
    .entity k ∈ Batch.mentioned store key ↔
      k = key ∨ ∃ n, (.entity k, n) ∈ [(start, pStart), (finish, pFinish)] := by
  rw [Batch.mentioned_of_endpoints he hstart hfinish]
  simp only [List.mem_cons, List.not_mem_nil, or_false, Prod.mk.injEq, Endpoint.entity.injEq,
    exists_or, exists_and_left, exists_eq, and_true]
  tauto

/-- A relationship whose ends have been mentioned is returned, and created between them if it has no
id. -/
theorem saved_of_ends (he : d.store.get? key = some e) {start finish : Endpoint}
    (hstart : e.endpoint? .start = some start) (hfinish : e.endpoint? .finish = some finish)
    {d₁ d₂ : Draft} {name : String} (hopened : Opened d key name d₁) {pStart pFinish : NodePattern}
    (hmention : ∀ x n, (x, n) ∈ [(start, pStart), (finish, pFinish)] → MentionedEnd d₁ x n d₂)
    (hstore : d'.store = d₂.store) (hcount : ∀ kind, d'.names.count kind = d₂.names.count kind)
    (hreturned : d'.clauses.returned = d₂.clauses.returned ++ [name])
    (hcreated : ∀ p ∈ d'.clauses.created, p ∈ d₂.clauses.created ∨
      e.id = none ∧ ∃ labels fields, p = .path pStart ⟨name, labels, fields⟩ pFinish) :
    Saved d key d' := by
  obtain ⟨hnaming, hname, hplaced, hcreated₁⟩ := hopened
  have hends := hmention start pStart (List.mem_cons_self ..)
  have hnaming' : Naming d.store d.names d'.store d'.names :=
    (hnaming.trans hends.extended.naming).trans (hstore ▸ .of_count d₂.store hcount)
  have hmentioned := fun k => entity_mem_mentioned_iff he hstart hfinish pStart pFinish k
  have hself : d'.store.nameOf? key = some name :=
    hstore ▸ hends.extended.naming.keeps key name hname
  have hlast : name ∈ d'.clauses.returned :=
    hreturned ▸ List.mem_append_right _ (List.mem_singleton_self name)
  refine ⟨hnaming', fun k hk => ?_, fun p hp other hspells => ?_⟩
  · rcases (hmentioned k).mp hk with rfl | ⟨n, hn⟩
    · exact ⟨name, hself, hlast⟩
    · obtain ⟨hname', hplace⟩ := (hmention _ n hn).stored k rfl
      refine ⟨n.name, hstore ▸ hname', ?_⟩
      rcases hplace with hplace | hplace
      · rw [hplaced, List.mem_singleton] at hplace
        exact hplace ▸ hlast
      · exact hreturned ▸ List.mem_append_left _ hplace
  · rcases hcreated p hp with hold | ⟨hid, labels, fields, rfl⟩
    · exact .inl (hcreated₁ ▸ hends.created ▸ hold)
    · refine .inr ?_
      rcases hspells with rfl | ⟨n, hn, rfl, hspelled⟩
      · exact ⟨key, e, (hmentioned key).mpr (.inl rfl), he, hid, hself⟩
      · -- an end that is spelled out is a stored node without an id
        obtain ⟨x, hx⟩ : ∃ x, (x, n) ∈ [(start, pStart), (finish, pFinish)] := by
          rcases hn with rfl | rfl
          · exact ⟨start, by simp⟩
          · exact ⟨finish, by simp⟩
        obtain ⟨k, e', rfl, he', hid'⟩ := (hmention x n hx).spelled.resolve_right hspelled
        obtain ⟨e₀, he₀, hsame⟩ := Endpoint.exists_of_same hnaming.same he'
        have hid₀ : e₀.id = e'.id := congrArg (fun e => e.id) hsame
        exact ⟨k, e₀, (hmentioned k).mpr (.inr ⟨n, hx⟩), he₀, hid₀.trans hid',
          hstore ▸ ((hmention _ n hx).stored k rfl).1⟩

theorem saved_saveRelationship (he : d.store.get? key = some e) {start finish : Endpoint}
    (hstart : e.endpoint? .start = some start) (hfinish : e.endpoint? .finish = some finish)
    (hnodeStart : Batch.IsNodeEnd d.store start) (hnodeFinish : Batch.IsNodeEnd d.store finish)
    (hplaced : d.placed = []) : Saved d key (d.saveRelationship m key e) := by
  obtain ⟨name, d₁, hdefine, hextends, hname, hplaced₁, hclauses⟩ := exists_define he
  rw [hplaced] at hplaced₁
  have hends : ∀ role, (e.bindVariable name).endpoint? role = e.endpoint? role := fun _ => rfl
  rw [saveRelationship, hdefine]
  simp only [place, hplaced₁, List.not_mem_nil, if_false, List.nil_append, hends, hstart, hfinish]
  have hopened : Opened d key name { d₁ with placed := [name] } :=
    ⟨hextends.naming, hname, rfl, congrArg Clauses.created hclauses⟩
  have hfirst := mentionedEnd_introduceEnd (d := { d₁ with placed := [name] }) m
    (hnodeStart.of_naming hextends.naming)
  rcases hrunStart : introduceEnd { d₁ with placed := [name] } m (some start) with ⟨pStart, d₂⟩
  rw [hrunStart] at hfirst
  have hsecond := mentionedEnd_introduceEnd (d := d₂) m
    (hnodeFinish.of_naming (hextends.naming.trans hfirst.extended.naming))
  rcases hrunFinish : d₂.introduceEnd m (some finish) with ⟨pFinish, d₃⟩
  rw [hrunFinish] at hsecond
  have hmention : ∀ x n, (x, n) ∈ [(start, pStart), (finish, pFinish)] →
      MentionedEnd { d₁ with placed := [name] } x n d₃ := by
    intro x n hx
    simp only [List.mem_cons, List.not_mem_nil, or_false, Prod.mk.injEq] at hx
    rcases hx with ⟨rfl, rfl⟩ | ⟨rfl, rfl⟩
    · exact hfirst.later hsecond.extended hsecond.created
    · exact hsecond.earlier hfirst.extended hfirst.created
  cases hid : e.id with
  | some id =>
    have hbound : (e.bindVariable name).id = some id := hid
    simp only [hbound]
    obtain ⟨hstore, hcount, -, hreturned, hcreated⟩ := fills_update
      (d₃.addMatch (.path pStart ⟨name, (e.bindVariable name).labels, []⟩ pFinish)) m name
      (e.bindVariable name) id
    exact saved_of_ends he hstart hfinish hopened hmention hstore hcount
      (congrArg (· ++ [name]) hreturned) fun p hp => .inl (hcreated ▸ hp)
  | none =>
    have hbound : (e.bindVariable name).id = none := hid
    simp only [hbound]
    obtain ⟨hstore, hcount, -, hreturned, hcreated⟩ :=
      d₃.fills_bindFields (e.bindVariable name) ((e.bindVariable name).data m .graph).toList
    refine saved_of_ends he hstart hfinish hopened hmention hstore hcount
      (congrArg (· ++ [name]) hreturned) fun p hp => ?_
    rcases List.mem_append.mp hp with hold | hnew
    · exact .inl (hcreated ▸ hold)
    · exact .inr ⟨hid, _, _, List.mem_singleton.mp hnew⟩

/-- Saving one accepted entity in a statement of its own, as a flush does. What is said about its
ends is needed because their saves are left to this one. -/
theorem saved_save (h : Batch.Accepted d.store key) (hplaced : d.placed = []) :
    Saved d key (d.save m key) := by
  obtain ⟨e, he, hnode | ⟨start, finish, hstart, hfinish, hnodeStart, hnodeFinish⟩⟩ := h
  · rw [save, he]
    simp only [hnode, if_true]
    exact saved_saveNode he hnode hplaced
  · have hrel := Entity.isNode_eq_false_of_endpoint? hstart
    rw [save, he]
    simp only [hrel, Bool.false_eq_true, if_false]
    exact saved_saveRelationship he hstart hfinish hnodeStart hnodeFinish hplaced

end Draft

/-! ### Collecting what is deleted -/

/-- Collecting what is deleted only hands out variables. -/
theorem collectDeletion_hands_out (store : Store) (names : Names) (deletion : Deletion)
    (keys : List EntityKey) :
    Naming store names (collectDeletion store names deletion keys).store
      (collectDeletion store names deletion keys).names := by
  induction keys generalizing store names deletion with
  | nil => exact .refl store names
  | cons key rest ih =>
    rw [collectDeletion]
    cases he : store.get? key with
    | none => exact .refl store names
    | some e =>
      obtain ⟨name, names₁, hdefine⟩ := names.exists_define e
      have hnaming := Naming.define he hdefine
      simp only [hdefine]
      cases hid : (e.bindVariable name).id with
      | none => exact hnaming.trans (ih _ _ _)
      | some id =>
        have hcount : Naming (store.modify key fun _ => e.bindVariable name) names₁
            (store.modify key fun _ => e.bindVariable name)
            (names₁.paramFor (e.bindVariable name) "id").2 :=
          .of_count _ (Draft.count_paramFor names₁ _ "id")
        exact (hnaming.trans hcount).trans (ih _ _ _)

end GraphMapping
