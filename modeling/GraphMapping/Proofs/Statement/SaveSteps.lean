import GraphMapping.Proofs.Except
import GraphMapping.Proofs.Statement.Drawing

/-!
# The parts that a batch leads to

Every step of composing a save mentions something: a stored node, a bare id, or a relationship after
its two ends. A step adds a part for what has not been mentioned before and adds nothing otherwise.
So the parts of the whole statement are what its batch mentions, each once.

A relationship takes its place before its ends are written and is complete after them. In between it
is opened; as its ends are nodes, they cannot be mistaken for it.

## Main definitions

* `Batch.mentioned`: what an entity of a batch mentions, in order.
* `Batch.Accepted`: the entity is a node, or a relationship with two ends that can be written.
* `Draft.Writes`: a draft that writes some keys: its parts and its patterns are theirs.

## Main results

* `Draft.Follows.introduce`, `Draft.Follows.introduceId`, `Draft.Follows.saveRelationship`: the
  steps.
* `Draft.Writes.saveAll`: a whole batch.
-/

namespace GraphMapping

/-! ### Nodes and relationships -/

namespace Entity

variable {e e' : Entity} {role : EndpointRole} {x : Endpoint}

theorem isNode_congr (h : e.shape = e'.shape) : e.isNode = e'.isNode := by
  rw [isNode, isNode, h]

theorem endpoint?_congr (h : e.shape = e'.shape) (role : EndpointRole) :
    e.endpoint? role = e'.endpoint? role := by
  simp only [endpoint?, h]

theorem endpoint?_of_isNode (h : e.isNode = true) (role : EndpointRole) :
    e.endpoint? role = none := by
  rw [isNode] at h
  cases hshape : e.shape <;> simp_all [endpoint?]

theorem isNode_eq_false_of_endpoint? (h : e.endpoint? role = some x) : e.isNode = false := by
  cases hnode : e.isNode with
  | true => exact nomatch (endpoint?_of_isNode hnode role).symm.trans h
  | false => rfl

end Entity

/-! ### Batches -/

namespace Batch

variable {store : Store} {key : EntityKey}

/-- What an entity of a batch mentions: its ends, and itself. -/
def mentioned (store : Store) (key : EntityKey) : List Endpoint :=
  ((store.get? key).elim [] fun e =>
    (e.endpoint? .start).toList ++ (e.endpoint? .finish).toList) ++ [.entity key]

/-- An entity mentions itself and the stored ends it has. -/
theorem mem_mentioned_iff {k : EntityKey} : Endpoint.entity k ∈ mentioned store key ↔
    k = key ∨ ∃ e role, store.get? key = some e ∧ e.endpoint? role = some (.entity k) := by
  rw [mentioned, List.mem_append, List.mem_singleton, Endpoint.entity.injEq, or_comm]
  refine or_congr_right ?_
  cases store.get? key with
  | none => simp
  | some e =>
    simp only [Option.elim_some, List.mem_append, Option.mem_toList, Option.some.injEq,
      exists_and_left, exists_eq_left']
    constructor
    · rintro (hend | hend)
      · exact ⟨_, hend⟩
      · exact ⟨_, hend⟩
    · rintro ⟨role, hend⟩
      cases role
      · exact .inl hend
      · exact .inr hend

/-- An end that is a stored entity is a node. -/
def IsNodeEnd (store : Store) (x : Endpoint) : Prop :=
  ∀ key, x = .entity key → ∃ node, store.get? key = some node ∧ node.isNode = true

/-- The entity is a node, or a relationship with two ends that can be written. -/
def Accepted (store : Store) (key : EntityKey) : Prop :=
  ∃ e, store.get? key = some e ∧ (e.isNode = true ∨
    ∃ start finish, e.endpoint? .start = some start ∧ e.endpoint? .finish = some finish ∧
      IsNodeEnd store start ∧ IsNodeEnd store finish)

theorem checkEnd_eq_ok {e : Entity} {role : EndpointRole} (h : checkEnd store key e role = .ok ()) :
    ∃ x, e.endpoint? role = some x ∧ IsNodeEnd store x := by
  rw [checkEnd] at h
  cases hend : e.endpoint? role with
  | none => simp [hend] at h
  | some x =>
    refine ⟨x, rfl, ?_⟩
    rintro other rfl
    cases hnode : store.get? other with
    | none => simp [hend, hnode] at h
    | some node =>
      refine ⟨node, rfl, ?_⟩
      by_contra hnot
      simp [hend, hnode, hnot] at h

theorem checkKey_eq_ok (h : checkKey store key = .ok ()) : Accepted store key := by
  rw [checkKey] at h
  cases he : store.get? key with
  | none => simp [he] at h
  | some e =>
    refine ⟨e, he, ?_⟩
    simp only [he] at h
    by_cases hnode : e.isNode = true
    · exact .inl hnode
    · rw [if_neg hnode] at h
      cases hstart : checkEnd store key e .start with
      | error err => simp [hstart, bind, Except.bind] at h
      | ok u =>
        simp only [hstart, bind, Except.bind] at h
        obtain ⟨a, ha, hanode⟩ := checkEnd_eq_ok hstart
        obtain ⟨b, hb, hbnode⟩ := checkEnd_eq_ok h
        exact .inr ⟨a, b, ha, hb, hanode, hbnode⟩

theorem accepted_of_check {keys : List EntityKey} (h : check store keys = .ok ()) :
    ∀ key ∈ keys, Accepted store key := by
  rw [check] at h
  split at h
  · simp at h
  · exact fun key hkey => checkKey_eq_ok (List.forM_eq_ok_iff.mp h key hkey)

theorem mentioned_of_isNode {e : Entity} (he : store.get? key = some e)
    (hnode : e.isNode = true) : mentioned store key = [.entity key] := by
  simp [mentioned, he, Entity.endpoint?_of_isNode hnode]

theorem mentioned_of_endpoints {e : Entity} (he : store.get? key = some e)
    {start finish : Endpoint} (hstart : e.endpoint? .start = some start)
    (hfinish : e.endpoint? .finish = some finish) :
    mentioned store key = [start, finish, .entity key] := by
  simp [mentioned, he, hstart, hfinish]

/-- A relationship is mentioned only as an entity of the batch: the ends are nodes. So one that has
been mentioned before has been written before, and is not written a second time. -/
theorem mem_of_mentioned {keys : List EntityKey} {e : Entity}
    (hkeys : ∀ key ∈ keys, Accepted store key) (he : store.get? key = some e)
    (hrel : e.isNode = false) (h : Endpoint.entity key ∈ keys.flatMap (mentioned store)) :
    key ∈ keys := by
  obtain ⟨k, hk, hmem⟩ := List.mem_flatMap.mp h
  obtain ⟨ek, hek, hkind⟩ := hkeys k hk
  have hnotEnd : ∀ x, IsNodeEnd store x → Endpoint.entity key ≠ x := by
    rintro x hx rfl
    obtain ⟨node, hnode, hisNode⟩ := hx key rfl
    obtain rfl := Option.some.inj (he.symm.trans hnode)
    exact absurd (hrel.symm.trans hisNode) (by decide)
  rcases hkind with hnode | ⟨start, finish, hstart, hfinish, hstartNode, hfinishNode⟩
  · rw [mentioned_of_isNode hek hnode, List.mem_singleton] at hmem
    cases hmem
    exact hk
  · rw [mentioned_of_endpoints hek hstart hfinish] at hmem
    simp only [List.mem_cons, List.not_mem_nil, or_false] at hmem
    rcases hmem with hmem | hmem | hmem
    · exact absurd hmem (hnotEnd start hstartNode)
    · exact absurd hmem (hnotEnd finish hfinishNode)
    · cases hmem
      exact hk

end Batch

/-! ### Steps -/

namespace Draft

variable {m : Moment} {store₀ : Store} {names₀ : Names} {opened : Option (EntityKey × String)}
  {seen : List Endpoint} {parts : List Part} {d : Draft} {key : EntityKey} {e : Entity}
  {name : String}

/-- A mention adds parts to a draft, at most one, matches known nodes and creates nothing by
itself. -/
structure Introduces (m : Moment) (store₀ : Store) (parts : List Part) (x : Endpoint)
    (added : List Part) (p : NodePattern) (d d' : Draft) : Prop where
  mentions : Part.Mentions m store₀ parts x added p
  matched : d'.clauses.matched = d.clauses.matched ++ added.flatMap (Part.matched store₀)
  created : d'.clauses.created = d.clauses.created

/-- Next to parts that are for something else, a mention adds a part of its own. -/
theorem Introduces.first (part : Part) {x : Endpoint} (hmention : part.mention = x)
    (hfirst : ∀ q ∈ parts, q.mention ≠ x) {d₁ : Draft} (hclauses : d₁.clauses = d.clauses)
    (names : Names) :
    Introduces m store₀ parts x [part] (part.asEnd m store₀) d
      (d₁.withPart m store₀ part names (part.matched store₀) []) where
  mentions := .first hmention hfirst
  matched := by simp [withPart, hclauses]
  created := by simp [withPart, hclauses]

section Part

variable (hsame : d.store.releaseVariables = store₀.releaseVariables)
  (he : d.store.get? key = some e) (hname : e.queryVariable = some name)

include hsame he hname

/-- A new node gets its part when it is spelled out. -/
theorem introduceNew_eq (hid : e.id = none) :
    let part : Part := ⟨.entity key, name, d.names.paramCount e.typeName⟩
    ∃ names, d.names.HandsOutParams e.typeName (part.params m store₀).length names ∧
      (⟨name, e.labels, (d.bindFields e (e.data m .graph).toList).1⟩ : NodePattern) =
        part.asEnd m store₀ ∧
      (d.bindFields e (e.data m .graph).toList).2.addReturn name =
        d.withPart m store₀ part names (part.matched store₀) [] := by
  intro part
  obtain ⟨names, hnames, heq⟩ := bindNew_eq (m := m) hsame he hname hid
  have hidentity := (Endpoint.identity?_of_same hsame he).trans hid
  have hlabels := Endpoint.labels_of_same hsame he
  refine ⟨names, hnames, ?_, ?_⟩
  · rw [heq]
    simp [part, Part.asEnd, Part.spelled, hidentity, hlabels]
  · rw [heq]
    simp [part, Part.matched, hidentity, withPart, addReturn, Part.bound?, Endpoint.bareId?,
      Part.returned, Clauses.addPart]

/-- A node with an id gets its part when it is matched and brought to its current data. -/
theorem introduceKnown_eq {id : Int64} (hid : e.id = some id) :
    let part : Part := ⟨.entity key, name, d.names.paramCount e.typeName⟩
    ∃ names, d.names.HandsOutParams e.typeName (part.params m store₀).length names ∧
      (⟨name, [], []⟩ : NodePattern) = part.asEnd m store₀ ∧
      ((d.addMatch (.node ⟨name, [], []⟩)).update m name e id).addReturn name =
        d.withPart m store₀ part names (part.matched store₀) [] := by
  intro part
  obtain ⟨names, hnames, heq⟩ := update_eq (m := m) (d := d.addMatch (.node ⟨name, [], []⟩))
    hsame he hname hid
  have hidentity := (Endpoint.identity?_of_same hsame he).trans hid
  refine ⟨names, hnames, ?_, ?_⟩
  · simp [part, Part.asEnd, hidentity]
  · rw [heq]
    simp [part, Part.matched, hidentity, withPart, addMatch, addReturn, Part.bound?,
      Endpoint.bareId?, Part.returned, Clauses.addPart]

/-- A new relationship gets its part when it is created between its ends. -/
theorem drawNew_eq (hid : e.id = none) (start finish : NodePattern) :
    let part : Part := ⟨.entity key, name, d.names.paramCount e.typeName⟩
    ∃ names, d.names.HandsOutParams e.typeName (part.params m store₀).length names ∧
      ((d.bindFields e (e.data m .graph).toList).2.addCreate (.path start
          ⟨name, e.labels, (d.bindFields e (e.data m .graph).toList).1⟩ finish)).addReturn name =
        d.withPart m store₀ part names [] [part.path m store₀ start finish] := by
  intro part
  obtain ⟨names, hnames, heq⟩ := bindNew_eq (m := m) hsame he hname hid
  have hidentity := (Endpoint.identity?_of_same hsame he).trans hid
  have hlabels := Endpoint.labels_of_same hsame he
  refine ⟨names, hnames, ?_⟩
  rw [heq]
  simp [part, withPart, Part.path, addReturn, Draft.addCreate, Part.bound?, Endpoint.bareId?,
    Part.returned, Clauses.addPart, hidentity, hlabels]

/-- A relationship with an id gets its part when it is matched between its ends and brought to its
current data. -/
theorem drawKnown_eq {id : Int64} (hid : e.id = some id) (start finish : NodePattern) :
    let part : Part := ⟨.entity key, name, d.names.paramCount e.typeName⟩
    ∃ names, d.names.HandsOutParams e.typeName (part.params m store₀).length names ∧
      ((d.addMatch (.path start ⟨name, e.labels, []⟩ finish)).update m name e id).addReturn name =
        d.withPart m store₀ part names [part.path m store₀ start finish] [] := by
  intro part
  obtain ⟨names, hnames, heq⟩ := update_eq (m := m)
    (d := d.addMatch (.path start ⟨name, e.labels, []⟩ finish)) hsame he hname hid
  have hidentity := (Endpoint.identity?_of_same hsame he).trans hid
  have hlabels := Endpoint.labels_of_same hsame he
  refine ⟨names, hnames, ?_⟩
  rw [heq]
  simp [part, withPart, Part.path, addReturn, addMatch, Part.bound?, Endpoint.bareId?,
    Part.returned, Clauses.addPart, hidentity, hlabels]

end Part

namespace Follows

theorem define (h : Follows m store₀ names₀ opened seen parts d)
    (he : d.store.get? key = some e) :
    ∃ name d₁, d.define key e = (name, e.bindVariable name, d₁) ∧
      Follows m store₀ names₀ opened seen parts d₁ ∧
      d₁.store.get? key = some (e.bindVariable name) ∧ d₁.store.nameOf? key = some name ∧
      d₁.clauses = d.clauses := by
  obtain ⟨name, names, hdefine⟩ := d.names.exists_define e
  have hget := Store.get?_modify_of_get? he fun _ => e.bindVariable name
  have hcount : ∀ typeName, d.names.paramCount typeName ≤ names.paramCount typeName := by
    intro typeName
    rw [Names.paramCount_define hdefine]
  refine ⟨name, { d with store := d.store.modify key fun _ => e.bindVariable name, names }, ?_,
    h.rename (Naming.define he hdefine) (h.named.define he hdefine) hcount, hget,
    Store.nameOf?_of_get? hget, rfl⟩
  rw [Draft.define, hdefine]

/-- A stored node is mentioned. The flag says that the pattern spells it out. -/
theorem introduce (h : Follows m store₀ names₀ opened seen parts d)
    (he : d.store.get? key = some e)
    (hopened : ∀ other name, opened = some (other, name) → other ≠ key) :
    ∃ added p d', d.introduce m key e =
        ((added.any fun part => (part.mention.identity? store₀).isNone, p), d') ∧
      Follows m store₀ names₀ opened (seen ++ [.entity key]) (parts ++ added) d' ∧
      Introduces m store₀ parts (.entity key) added p d d' := by
  obtain ⟨name, d₁, hdefine, h₁, he₁, hname, hclauses⟩ := h.define he
  have hnotOpened : opened.map Prod.snd ≠ some name := by
    intro heq
    obtain ⟨⟨other, name'⟩, hopen, rfl⟩ := Option.map_eq_some_iff.mp heq
    have hother := h₁.opening other name' hopen
    exact hopened other name' hopen (h₁.named.distinct other key name' hother hname)
  rw [Draft.introduce, hdefine]
  by_cases hplaced : name ∈ d₁.placed
  · have hseen : Endpoint.entity key ∈ seen :=
      (h₁.mem_returned hname).mp (((h₁.placed name).mp hplaced).resolve_right hnotOpened)
    obtain ⟨part, hpart, hmention⟩ := h₁.mem_mentions.mp hseen
    obtain rfl := Option.some.inj ((h₁.entity part hpart key hmention).symm.trans hname)
    refine ⟨[], _, d₁, ?_, ?_, .again hpart hmention, ?_, ?_⟩
    · simp only [place_of_mem hplaced]
      rfl
    · rw [List.append_nil]
      exact h₁.again fun x hx => List.mem_singleton.mp hx ▸ hseen
    · rw [hclauses, List.flatMap_nil, List.append_nil]
    · rw [hclauses]
  · have hnew : Endpoint.entity key ∉ seen :=
      fun hseen => hplaced ((h₁.placed name).mpr (.inl ((h₁.mem_returned hname).mpr hseen)))
    have hplaces : ∀ name', name' ∈ d₁.placed ++ [name] ↔
        name' ∈ parts.flatMap Part.returned ++ [name] ∨ opened.map Prod.snd = some name' := by
      intro name'
      rw [List.mem_append, List.mem_append, h₁.placed]
      tauto
    have hfirst : ∀ q ∈ parts, q.mention ≠ .entity key :=
      fun q hq heq => hnew (h₁.mem_mentions.mpr ⟨q, hq, heq⟩)
    have hidentity := Endpoint.identity?_of_same h₁.naming.same he₁
    let part : Part := ⟨.entity key, name, d₁.names.paramCount (e.bindVariable name).typeName⟩
    let placed : Draft := { d₁ with placed := d₁.placed ++ [name] }
    have hpart : ∀ names, d₁.names.HandsOutParams (e.bindVariable name).typeName
        (part.params m store₀).length names →
          Follows m store₀ names₀ opened (seen ++ [.entity key]) (parts ++ [part])
            (placed.withPart m store₀ part names (part.matched store₀) []) := fun names hnames =>
      h₁.withEntity he₁ rfl hnew hnames hplaces fun _ _ hopen => hopen
    have hclauses₁ : placed.clauses = d.clauses := hclauses
    simp only [place_of_not_mem hplaced]
    cases hid : (e.bindVariable name).id with
    | none =>
      obtain ⟨names, hnames, hpattern, hdraft⟩ :=
        introduceNew_eq (m := m) (d := placed) h₁.naming.same he₁ rfl hid
      refine ⟨[part], _, _, ?_, hpart names hnames, .first part rfl hfirst hclauses₁ names⟩
      exact Prod.ext (Prod.ext (by simp [part, hidentity.trans hid]) hpattern) hdraft
    | some id =>
      obtain ⟨names, hnames, hpattern, hdraft⟩ :=
        introduceKnown_eq (m := m) (d := placed) h₁.naming.same he₁ rfl hid
      refine ⟨[part], _, _, ?_, hpart names hnames, .first part rfl hfirst hclauses₁ names⟩
      exact Prod.ext (Prod.ext (by simp [part, hidentity.trans hid]) hpattern) hdraft

theorem introduceId (h : Follows m store₀ names₀ opened seen parts d) (id : Int64) :
    ∃ added p d', d.introduceId id = (p, d') ∧
      Follows m store₀ names₀ opened (seen ++ [.id id]) (parts ++ added) d' ∧
      Introduces m store₀ parts (.id id) added p d d' := by
  rw [Draft.introduceId]
  cases hlookup : d.boundIds.lookup id with
  | some name =>
    obtain ⟨before, after, hids, -⟩ := List.lookup_eq_some_iff.mp hlookup
    have hmem : (id, name) ∈ parts.filterMap Part.bound? := by
      rw [← h.boundIds, hids]
      simp
    obtain ⟨part, hpart, hmention, rfl⟩ := Part.mention_of_mem_bound hmem
    refine ⟨[], _, d, rfl, ?_, .again hpart hmention, (List.append_nil _).symm, rfl⟩
    rw [List.append_nil]
    exact h.again fun x hx => List.mem_singleton.mp hx ▸ h.mem_mentions.mpr ⟨part, hpart, hmention⟩
  | none =>
    have hfirst : ∀ q ∈ parts, q.mention ≠ .id id := by
      intro q hq hmention
      have hmem : (id, q.name) ∈ d.boundIds := h.boundIds ▸ Part.mem_bound hq hmention
      have hne := List.lookup_eq_none_iff.mp hlookup (id, q.name) hmem
      simp at hne
    have hnew : Endpoint.id id ∉ seen := by
      intro hseen
      obtain ⟨q, hq, hmention⟩ := h.mem_mentions.mp hseen
      exact hfirst q hq hmention
    obtain ⟨name, names, hallocate⟩ : ∃ name names,
        d.names.allocate .node = (name, names) := ⟨_, _, rfl⟩
    have hname : name = (d.names.allocate .node).1 := by rw [hallocate]
    have hnames : names = (d.names.allocate .node).2 := by rw [hallocate]
    have hfresh : ¬ d.names.Issued name := hname ▸ d.names.not_issued_allocate .node
    have hissued : names.Issued name := by
      rw [hname, hnames]
      exact d.names.issued_allocate .node
    have h₁ := h.rename (hnames ▸ Naming.allocate d.store d.names .node)
      (h.named.mono fun _ hold => hnames ▸ hold.allocate .node)
      (fun typeName => hnames ▸ (Names.paramCount_allocate d.names .node typeName).ge)
    let part : Part := ⟨.id id, name, names.paramCount genericNodeName⟩
    refine ⟨[part], part.asEnd m store₀, Draft.withPart { d with names } m store₀ part
      (names.param name genericNodeName "id").2 (part.matched store₀) [], ?_,
      h₁.withPart part hnew (fun _ hmention => by cases hmention)
        (fun _ _ => ⟨hissued, fun hold => hfresh (h.naming.issued name hold),
          fun key hkey => hfresh (h.named.issued key name hkey)⟩)
        (fun p hp heq => hfresh ((show p.name = name from heq) ▸ h.issued hp)) rfl
        (names.handsOutParams_param name genericNodeName "id") (fun name' => ?_)
        (fun _ _ hopen => hopen), .first rfl hfirst, rfl, List.append_nil _⟩
    · simp only [hallocate]
      simp [part, Draft.withPart, Part.asEnd, Part.matched, Clauses.addPart, Part.assigned,
        Part.conditions, Part.params, Part.fields, Part.idParam, Part.bound?, Part.returned,
        Endpoint.identity?, Endpoint.values, Endpoint.bareId?, Endpoint.removed, numberFields,
        addMatch, askId, bindParam, Names.param_eq, Dict.insertAll]
    · rw [Part.returned, List.append_nil]
      exact h.placed name'

theorem introduceEnd (h : Follows m store₀ names₀ opened seen parts d) {x : Endpoint}
    (hnode : Batch.IsNodeEnd store₀ x)
    (hopened : ∀ other name, opened = some (other, name) → x ≠ .entity other) :
    ∃ added p d', d.introduceEnd m (some x) = (p, d') ∧
      Follows m store₀ names₀ opened (seen ++ [x]) (parts ++ added) d' ∧
      Introduces m store₀ parts x added p d d' := by
  cases x with
  | entity key =>
    obtain ⟨node, hnode, -⟩ := hnode key rfl
    obtain ⟨e, he, -⟩ := h.naming.get? hnode
    obtain ⟨added, p, d', hstep, h', hintroduces⟩ := h.introduce he fun other name hopen heq =>
      hopened other name hopen (heq ▸ rfl)
    refine ⟨added, p, d', ?_, h', hintroduces⟩
    simp only [Draft.introduceEnd, he, hstep]
  | id id => exact h.introduceId id

/-! ### Entities of a batch -/

/-- What is matched and created makes no difference to the parts. -/
theorem addCreate (h : Follows m store₀ names₀ opened seen parts d) (p : Pattern) :
    Follows m store₀ names₀ opened seen parts (d.addCreate p) :=
  ⟨h.naming, h.named, h.mentions, h.entity, h.bare, h.distinct, h.opening, h.placed, h.boundIds,
    h.returned, h.conditions, h.assigned, h.params, h.counted, h.numbered⟩

/-- A node of the batch is mentioned, and created if it is new. -/
theorem saveNode (h : Follows m store₀ names₀ none seen parts d) (he : d.store.get? key = some e) :
    ∃ added p, Part.Mentions m store₀ parts (.entity key) added p ∧
      Follows m store₀ names₀ none (seen ++ [.entity key]) (parts ++ added) (d.saveNode m key e) ∧
      (d.saveNode m key e).clauses.matched =
        d.clauses.matched ++ added.flatMap (Part.matched store₀) ∧
      (d.saveNode m key e).clauses.created =
        d.clauses.created ++ added.flatMap (Part.created m store₀) := by
  obtain ⟨added, p, d', hstep, h', hmentions, hmatched, hcreated⟩ :=
    h.introduce he fun other name hopen => nomatch hopen
  refine ⟨added, p, hmentions, ?_⟩
  rw [Draft.saveNode, hstep]
  cases hmentions with
  | again hp hmention => exact ⟨h', hmatched, hcreated.trans (List.append_nil _).symm⟩
  | @first part hmention hnew =>
    cases hidentity : part.mention.identity? store₀ with
    | none =>
      simp only [List.any_cons, List.any_nil, hidentity, Option.isNone_none, Bool.or_false]
      refine ⟨h'.addCreate _, hmatched, ?_⟩
      simp [Draft.addCreate, hcreated, Part.created, Part.asEnd, hidentity]
    | some id =>
      simp only [List.any_cons, List.any_nil, hidentity, Option.isNone_some, Bool.or_false]
      refine ⟨h', hmatched, ?_⟩
      simp [hcreated, Part.created, hidentity]

/-- A relationship takes its place and is complete after its ends. By its place it is known to have
been written, should it be a key for the second time. -/
theorem opens (h : Follows m store₀ names₀ none seen parts d)
    (hname : d.store.nameOf? key = some name) :
    Follows m store₀ names₀ (some (key, name)) seen parts
      { d with placed := d.placed ++ [name] } := by
  refine { h with opening := ?_, placed := ?_ }
  · intro other name' heq
    cases heq
    exact hname
  · intro name'
    rw [List.mem_append, h.placed]
    simp [eq_comm]

/-- The opened entity is still the one it was when it took its place. -/
theorem get?_opened (h : Follows m store₀ names₀ (some (key, name)) seen parts d)
    {store : Store} (hsame : store.releaseVariables = store₀.releaseVariables)
    (he : store.get? key = some e) (hname : e.queryVariable = some name) :
    d.store.get? key = some e := by
  obtain ⟨e₀, he₀, hdata₀⟩ := Endpoint.exists_of_same hsame he
  have heq : e₀.bindVariable name = e := Entity.eq_of_releaseVariable hdata₀ hname.symm
  rw [h.naming.get?_of_nameOf? he₀ (h.opening key name rfl), heq]

/-- The opened entity is complete. -/
theorem closes (h : Follows m store₀ names₀ (some (key, name)) seen parts d)
    (he : d.store.get? key = some e) (hname : e.queryVariable = some name)
    (hnew : Endpoint.entity key ∉ seen) {names : Names} {matched created : List Pattern}
    (hnames : d.names.HandsOutParams e.typeName
      (Part.params m store₀ ⟨.entity key, name, d.names.paramCount e.typeName⟩).length names) :
    Follows m store₀ names₀ none (seen ++ [.entity key])
      (parts ++ [⟨.entity key, name, d.names.paramCount e.typeName⟩])
      (d.withPart m store₀ ⟨.entity key, name, d.names.paramCount e.typeName⟩ names matched
        created) := by
  refine h.withEntity he hname hnew hnames (fun name' => ?_) (fun _ _ hopen => nomatch hopen)
  rw [h.placed, List.mem_append]
  simp [eq_comm]

/-- Both ends of a relationship are mentioned, the start first. -/
theorem introduceEnds (h : Follows m store₀ names₀ (some (key, name)) seen parts d)
    {start finish : Endpoint} (hstartNode : Batch.IsNodeEnd store₀ start)
    (hfinishNode : Batch.IsNodeEnd store₀ finish) (hstartNe : start ≠ .entity key)
    (hfinishNe : finish ≠ .entity key) :
    ∃ addedStart addedFinish pStart pFinish d₁ d₂,
      d.introduceEnd m (some start) = (pStart, d₁) ∧
      d₁.introduceEnd m (some finish) = (pFinish, d₂) ∧
      Follows m store₀ names₀ (some (key, name)) (seen ++ [start] ++ [finish])
        (parts ++ addedStart ++ addedFinish) d₂ ∧
      Part.Mentions m store₀ parts start addedStart pStart ∧
      Part.Mentions m store₀ (parts ++ addedStart) finish addedFinish pFinish ∧
      d₂.clauses.matched =
        d.clauses.matched ++ (addedStart ++ addedFinish).flatMap (Part.matched store₀) ∧
      d₂.clauses.created = d.clauses.created := by
  have hopened : ∀ {x : Endpoint}, x ≠ .entity key → ∀ other name',
      some (key, name) = some (other, name') → x ≠ .entity other := by
    rintro x hne other name' ⟨⟩
    exact hne
  obtain ⟨addedStart, pStart, d₁, hstepStart, h₁, hdrawStart⟩ :=
    h.introduceEnd hstartNode (hopened hstartNe)
  obtain ⟨addedFinish, pFinish, d₂, hstepFinish, h₂, hdrawFinish⟩ :=
    h₁.introduceEnd hfinishNode (hopened hfinishNe)
  refine ⟨addedStart, addedFinish, pStart, pFinish, d₁, d₂, hstepStart, hstepFinish, h₂,
    hdrawStart.mentions, hdrawFinish.mentions, ?_, ?_⟩
  · rw [hdrawFinish.matched, hdrawStart.matched, List.flatMap_append, ← List.append_assoc]
  · rw [hdrawFinish.created, hdrawStart.created]

/-- A relationship of the batch that is written for the first time is drawn after its ends. -/
theorem saveRelationship (h : Follows m store₀ names₀ none seen parts d)
    (he : d.store.get? key = some e) {start finish : Endpoint}
    (hstart : e.endpoint? .start = some start) (hfinish : e.endpoint? .finish = some finish)
    (hstartNode : Batch.IsNodeEnd store₀ start) (hfinishNode : Batch.IsNodeEnd store₀ finish)
    (hstartNe : start ≠ .entity key) (hfinishNe : finish ≠ .entity key)
    (hnew : Endpoint.entity key ∉ seen) :
    ∃ addedStart addedFinish pStart pFinish, ∃ part : Part,
      Part.Mentions m store₀ parts start addedStart pStart ∧
      Part.Mentions m store₀ (parts ++ addedStart) finish addedFinish pFinish ∧
      part.mention = .entity key ∧
      (∀ p ∈ parts ++ addedStart ++ addedFinish, p.mention ≠ .entity key) ∧
      Follows m store₀ names₀ none (seen ++ [start, finish, .entity key])
        (parts ++ addedStart ++ addedFinish ++ [part]) (d.saveRelationship m key e) ∧
      (d.saveRelationship m key e).clauses.matched = d.clauses.matched ++
        (addedStart ++ addedFinish).flatMap (Part.matched store₀) ++
          (if e.id.isNone then [] else [part.path m store₀ pStart pFinish]) ∧
      (d.saveRelationship m key e).clauses.created = d.clauses.created ++
        if e.id.isNone then [part.path m store₀ pStart pFinish] else [] := by
  obtain ⟨name, d₁, hdefine, h₁, he₁, hname, hclauses⟩ := h.define he
  have hplaced : name ∉ d₁.placed := by
    intro hplaced
    refine hnew ((h₁.mem_returned hname).mp (((h₁.placed name).mp hplaced).resolve_right ?_))
    simp
  obtain ⟨addedStart, addedFinish, pStart, pFinish, d₃, d₄, hstepStart, hstepFinish, h₄, hdrawStart,
    hdrawFinish, hmatched, hcreated⟩ :=
      (h₁.opens hname).introduceEnds hstartNode hfinishNode hstartNe hfinishNe
  have he₄ := h₄.get?_opened h₁.naming.same he₁ rfl
  have hnew₄ : Endpoint.entity key ∉ seen ++ [start] ++ [finish] := by
    simp [hnew, hstartNe.symm, hfinishNe.symm]
  have hlist : seen ++ [start, finish, .entity key] =
      seen ++ [start] ++ [finish] ++ [.entity key] := by simp
  have hstart₁ : (e.bindVariable name).endpoint? .start = some start := hstart
  have hfinish₁ : (e.bindVariable name).endpoint? .finish = some finish := hfinish
  have hsameId : (e.bindVariable name).id = e.id := rfl
  let part : Part := ⟨.entity key, name, d₄.names.paramCount (e.bindVariable name).typeName⟩
  refine ⟨addedStart, addedFinish, pStart, pFinish, part, hdrawStart, hdrawFinish, rfl,
    fun p hp heq => hnew₄ (h₄.mem_mentions.mpr ⟨p, hp, heq⟩), ?_⟩
  rw [Draft.saveRelationship, hdefine, hlist]
  simp only [place_of_not_mem hplaced, hstart₁, hfinish₁, hstepStart, hstepFinish]
  cases hid : (e.bindVariable name).id with
  | none =>
    obtain ⟨names, hnames, hdraft⟩ := drawNew_eq (m := m) h₄.naming.same he₄ rfl hid pStart pFinish
    rw [← hsameId, hid]
    simp only [hdraft]
    refine ⟨h₄.closes he₄ rfl hnew₄ hnames, ?_, ?_⟩
    · simp [Draft.withPart, hmatched, hclauses]
    · simp [Draft.withPart, hcreated, hclauses, part]
  | some id =>
    obtain ⟨names, hnames, hdraft⟩ := drawKnown_eq (m := m) h₄.naming.same he₄ rfl hid pStart pFinish
    rw [← hsameId, hid]
    simp only [hdraft]
    refine ⟨h₄.closes he₄ rfl hnew₄ hnames, ?_, ?_⟩
    · simp [Draft.withPart, hmatched, hclauses, part]
    · simp [Draft.withPart, hcreated, hclauses]

end Follows

/-! ### Whole batches -/

/-- The draft writes the keys: its parts are what they mention, and its patterns are drawn from
them. -/
structure Writes (m : Moment) (store₀ : Store) (names₀ : Names) (keys : List EntityKey)
    (parts : List Part) (d : Draft) : Prop where
  follows : Follows m store₀ names₀ none (keys.flatMap (Batch.mentioned store₀)) parts d
  drawn : Drawn m store₀ keys parts d.clauses.matched d.clauses.created

namespace Writes

variable {done keys : List EntityKey}

/-- A relationship that is written for the second time is only given its variable. -/
theorem saveRelationship_again (h : Writes m store₀ names₀ done parts d)
    (he : d.store.get? key = some e) (hkey : key ∈ done) :
    Writes m store₀ names₀ (done ++ [key]) parts (d.saveRelationship m key e) := by
  have hmentioned : ∀ x ∈ Batch.mentioned store₀ key, x ∈ done.flatMap (Batch.mentioned store₀) :=
    fun x hx => List.mem_flatMap.mpr ⟨key, hkey, hx⟩
  have hself : Endpoint.entity key ∈ Batch.mentioned store₀ key :=
    List.mem_append_right _ (List.mem_singleton_self _)
  obtain ⟨name, d₁, hdefine, h₁, -, hname, hclauses⟩ := h.follows.define he
  have hplaced : name ∈ d₁.placed :=
    (h₁.placed name).mpr (.inl ((h₁.mem_returned hname).mpr (hmentioned _ hself)))
  have hstep : d.saveRelationship m key e = d₁ := by
    rw [Draft.saveRelationship, hdefine]
    simp only [place_of_mem hplaced]
  rw [hstep]
  refine ⟨?_, ?_⟩
  · rw [List.flatMap_append, List.flatMap_singleton]
    exact h₁.again hmentioned
  · rw [hclauses]
    exact h.drawn.again hkey

/-- An entity that can be written is mentioned after its ends. -/
theorem save (h : Writes m store₀ names₀ done parts d) (haccepted : Batch.Accepted store₀ key)
    (hdone : ∀ key ∈ done, Batch.Accepted store₀ key) :
    ∃ parts', Writes m store₀ names₀ (done ++ [key]) parts' (d.save m key) := by
  obtain ⟨e₀, he₀, hkind⟩ := haccepted
  obtain ⟨e, he, hdata⟩ := h.follows.naming.get? he₀
  have hshape : e.releaseVariable.shape = e₀.releaseVariable.shape := congrArg Entity.shape hdata
  have hid : e.releaseVariable.id = e₀.releaseVariable.id := congrArg Entity.id hdata
  change e.shape = e₀.shape at hshape
  change e.id = e₀.id at hid
  have hends := Entity.endpoint?_congr hshape
  have hisNode := Entity.isNode_congr hshape
  simp only [Draft.save, he, hisNode]
  cases hnode : e₀.isNode with
  | true =>
    obtain ⟨added, p, hmentions, hfollows, hmatched, hcreated⟩ := h.follows.saveNode he
    refine ⟨parts ++ added, ?_, ?_⟩
    · rwa [List.flatMap_append, List.flatMap_singleton, Batch.mentioned_of_isNode he₀ hnode]
    · rw [if_pos rfl, hmatched, hcreated]
      exact h.drawn.node he₀ hnode hmentions
  | false =>
    simp only [Bool.false_eq_true, if_false]
    by_cases hkey : Endpoint.entity key ∈ done.flatMap (Batch.mentioned store₀)
    · exact ⟨parts, h.saveRelationship_again he (Batch.mem_of_mentioned hdone he₀ hnode hkey)⟩
    · obtain ⟨start, finish, hstart, hfinish, hstartNode, hfinishNode⟩ :=
        hkind.resolve_left (by simp [hnode])
      have hne : ∀ x, Batch.IsNodeEnd store₀ x → x ≠ .entity key := by
        intro x hx heq
        obtain ⟨node, hget, hgetNode⟩ := hx key heq
        obtain rfl := Option.some.inj (he₀.symm.trans hget)
        simp [hnode] at hgetNode
      obtain ⟨addedStart, addedFinish, pStart, pFinish, part, hdrawStart, hdrawFinish, hpart,
        hfirst, hfollows, hmatched, hcreated⟩ := h.follows.saveRelationship he ((hends _).trans hstart)
          ((hends _).trans hfinish) hstartNode hfinishNode (hne start hstartNode)
          (hne finish hfinishNode) hkey
      refine ⟨parts ++ addedStart ++ addedFinish ++ [part], ?_, ?_⟩
      · rwa [List.flatMap_append, List.flatMap_singleton,
          Batch.mentioned_of_endpoints he₀ hstart hfinish]
      · rw [hmatched, hcreated, hid]
        exact h.drawn.relationship he₀ hnode hstart hfinish hdrawStart hdrawFinish hpart hfirst

theorem saveAll (h : Writes m store₀ names₀ done parts d)
    (hdone : ∀ key ∈ done, Batch.Accepted store₀ key)
    (hkeys : ∀ key ∈ keys, Batch.Accepted store₀ key) :
    ∃ parts', Writes m store₀ names₀ (done ++ keys) parts'
      (keys.foldl (fun d key => d.save m key) d) := by
  induction keys generalizing done parts d with
  | nil => exact ⟨parts, by rwa [List.append_nil]⟩
  | cons key rest ih =>
    have haccepted := hkeys key (List.mem_cons_self ..)
    obtain ⟨parts₁, h₁⟩ := h.save haccepted hdone
    have hdone₁ : ∀ k ∈ done ++ [key], Batch.Accepted store₀ k := by
      intro k hk
      rcases List.mem_append.mp hk with hk | hk
      · exact hdone k hk
      · exact List.mem_singleton.mp hk ▸ haccepted
    obtain ⟨parts', h'⟩ := ih h₁ hdone₁ fun k hk => hkeys k (List.mem_cons_of_mem _ hk)
    exact ⟨parts', by rwa [List.append_assoc, List.singleton_append] at h'⟩

end Writes

end Draft

end GraphMapping
