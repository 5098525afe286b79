import GraphMapping.Proofs.Statement.SaveBatch

/-!
# Where new nodes are created

A node without an id is new, and the save that mentions it is there to create it. The first mention
of a new node spells it out, with its labels and its fields, and every later mention is its variable
alone. Which clause the first mention stands in is decided by what mentions it first. A new
relationship, or the node itself as a key of the batch, puts it into the created patterns; a
relationship that has an id puts it into the matched ones, where nothing is created. And even a node
that is created may be mentioned by such a relationship later on, so that its variable is matched
before it stands for anything.

So a save creates its new nodes, and matches nothing but what is there, exactly if no relationship
with an id among its keys has a new end.

## Main definitions

* `Clauses.SpellsOut`, `RefersOnly`: patterns that introduce a node, and patterns that refer to it.
* `Batch.CreatesNew`: every new node is created, and only known entities are matched.
* `Batch.HasNewEnd`: a relationship with an id has a new end.

## Main results

* `Drawn.spells_first`: where a new node is spelled out.
* `Drawn.exists_of_matched`, `Drawn.matches_end`: what is matched.
* `composeSave_creates`: when a save creates its new nodes.
* `composeSave_matches_new_end`: a save that does not.
-/

namespace GraphMapping

/-! ### Mentions of a node -/

/-- The mentions of a node, in order. -/
def mentionsOf (name : String) (patterns : List Pattern) : List NodePattern :=
  (patterns.flatMap Pattern.nodes).filter (·.name = name)

/-- The node is mentioned by its variable alone. -/
def RefersOnly (name : String) (patterns : List Pattern) : Prop :=
  ∀ n ∈ mentionsOf name patterns, n = ⟨name, [], []⟩

/-- The first mention of the node is the given one, and all later ones are its variable alone. -/
def SpelledBy (first : NodePattern) (patterns : List Pattern) : Prop :=
  ∃ rest, mentionsOf first.name patterns = first :: rest ∧ ∀ n ∈ rest, n = ⟨first.name, [], []⟩

/-- The patterns introduce a node: its first mention carries the labels and the fields of the
entity, bound to their values, and all later ones are its variable alone. -/
def Clauses.SpellsOut (clauses : Clauses) (m : Moment) (patterns : List Pattern) (name : String)
    (e : Entity) : Prop :=
  ∃ fields, SpelledBy ⟨name, e.labels, fields⟩ patterns ∧
    List.Forall₂ (fun f v => f.1 = v.1 ∧ clauses.params.get? f.2 = some v.2) fields
      (e.data m .graph).toList

section Mentions

variable {name : String} {patterns patterns' : List Pattern} {first : NodePattern}

theorem mentionsOf_append (name : String) (patterns patterns' : List Pattern) :
    mentionsOf name (patterns ++ patterns') =
      mentionsOf name patterns ++ mentionsOf name patterns' := by
  rw [mentionsOf, List.flatMap_append, List.filter_append]
  rfl

theorem mem_mentionsOf {n : NodePattern} :
    n ∈ mentionsOf name patterns ↔ (∃ p ∈ patterns, n ∈ p.nodes) ∧ n.name = name := by
  rw [mentionsOf, List.mem_filter, List.mem_flatMap, decide_eq_true_eq]

theorem RefersOnly.append (h : RefersOnly name patterns) (h' : RefersOnly name patterns') :
    RefersOnly name (patterns ++ patterns') := by
  intro n hn
  rw [mentionsOf_append] at hn
  exact (List.mem_append.mp hn).elim (h n) (h' n)

theorem refersOnly_of_eq_nil (h : mentionsOf name patterns = []) : RefersOnly name patterns := by
  intro n hn
  rw [h] at hn
  exact absurd hn List.not_mem_nil

theorem SpelledBy.append (h : SpelledBy first patterns) (h' : RefersOnly first.name patterns') :
    SpelledBy first (patterns ++ patterns') := by
  obtain ⟨rest, heq, hrest⟩ := h
  refine ⟨rest ++ mentionsOf first.name patterns', ?_, fun n hn => ?_⟩
  · rw [mentionsOf_append, heq, List.cons_append]
  · exact (List.mem_append.mp hn).elim (hrest n) (h' n)

/-- What comes before the first mention makes no difference. -/
theorem SpelledBy.prepend (h : SpelledBy first patterns')
    (hnone : mentionsOf first.name patterns = []) : SpelledBy first (patterns ++ patterns') := by
  obtain ⟨rest, heq, hrest⟩ := h
  exact ⟨rest, by rw [mentionsOf_append, hnone, List.nil_append, heq], hrest⟩

end Mentions

/-! ### Patterns of parts -/

namespace Part

variable {m : Moment} {store : Store} {parts added : List Part} {x : Endpoint} {p q : Part}
  {n : NodePattern}

/-- The parts have different variables and are for different mentions. -/
structure Distinct (parts : List Part) : Prop where
  names : (parts.map (·.name)).Nodup
  mentions : (parts.map (·.mention)).Nodup

namespace Distinct

theorem left {parts' : List Part} (h : Distinct (parts ++ parts')) : Distinct parts := by
  obtain ⟨hnames, hmentions⟩ := h
  rw [List.map_append] at hnames hmentions
  exact ⟨(List.nodup_append.mp hnames).1, (List.nodup_append.mp hmentions).1⟩

theorem eq_of_name (h : Distinct parts) (hp : p ∈ parts) (hq : q ∈ parts)
    (hname : p.name = q.name) : p = q :=
  List.inj_on_of_nodup_map h.names hp hq hname

theorem eq_of_mention (h : Distinct parts) (hp : p ∈ parts) (hq : q ∈ parts)
    (hmention : p.mention = q.mention) : p = q :=
  List.inj_on_of_nodup_map h.mentions hp hq hmention

end Distinct

/-- A node that has a part is mentioned by its variable. -/
theorem Mentions.eq_of_mem (h : Mentions m store parts x added n)
    (hdistinct : Distinct (parts ++ added)) (hp : p ∈ parts) (hname : n.name = p.name) :
    n = ⟨p.name, [], []⟩ := by
  cases h with
  | again hq hmention => rw [← hname]
  | @first q hmention hnew =>
    have heq : p = q := hdistinct.eq_of_name (List.mem_append_left _ hp)
      (List.mem_append_right _ (List.mem_singleton_self q)) (hname.symm.trans (name_asEnd q))
    exact absurd (heq ▸ hmention) (hnew p hp)

/-- A mention has the variable of a part exactly if it is the part's own. -/
theorem Mentions.name_eq_iff (h : Mentions m store parts x added n) {parts' : List Part}
    (hdistinct : Distinct parts') (hsub : parts ++ added ⊆ parts') (hp : p ∈ parts') :
    n.name = p.name ↔ x = p.mention := by
  obtain ⟨q, hq, rfl, hname⟩ := h.exists_part
  rw [← hname]
  constructor
  · intro heq
    rw [hdistinct.eq_of_name (hsub hq) hp heq]
  · intro heq
    rw [hdistinct.eq_of_mention (hsub hq) hp heq]

/-- A part that is added is for a node that had none. -/
theorem Mentions.of_mem_added (h : Mentions m store parts x added n) (hp : p ∈ added) :
    added = [p] ∧ p.mention = x ∧ n = p.asEnd m store ∧ ∀ q ∈ parts, q.mention ≠ x := by
  cases h with
  | again hq hmention => exact absurd hp List.not_mem_nil
  | @first q hmention hnew =>
    obtain rfl := List.mem_singleton.mp hp
    exact ⟨rfl, hmention, rfl, hnew⟩

theorem exists_mem_append {parts' : List Part} :
    (∃ p ∈ parts ++ parts', p.mention = x) ↔
      (∃ p ∈ parts, p.mention = x) ∨ ∃ p ∈ parts', p.mention = x := by
  simp only [List.mem_append, or_and_right, exists_or]

/-- Next to the parts that are there, the mention is all that is added. -/
theorem Mentions.exists_added (h : Mentions m store parts x added n) {y : Endpoint} :
    (∃ p ∈ parts ++ added, p.mention = y) ↔ (∃ p ∈ parts, p.mention = y) ∨ x = y := by
  cases h with
  | @again p hp hmention =>
    rw [List.append_nil]
    refine ⟨.inl, fun hy => hy.elim id ?_⟩
    rintro rfl
    exact ⟨p, hp, hmention⟩
  | @first p hmention hnew =>
    rw [exists_mem_append]
    simp [hmention]

/-- A path between nodes of which one has a part already refers to that one. -/
theorem refersOnly_path {y : Endpoint} {addedFinish : List Part} {s f : NodePattern}
    (hs : Mentions m store parts x added s) (hf : Mentions m store (parts ++ added) y addedFinish f)
    (hdistinct : Distinct (parts ++ added ++ addedFinish)) (hq : q ∈ parts) :
    RefersOnly q.name [p.path m store s f] := by
  intro n hn
  obtain ⟨⟨pattern, hpattern, hmem⟩, hname⟩ := mem_mentionsOf.mp hn
  obtain rfl := List.mem_singleton.mp hpattern
  simp only [path, Pattern.nodes, List.mem_cons, List.not_mem_nil, or_false] at hmem
  rcases hmem with rfl | rfl
  · exact hs.eq_of_mem hdistinct.left hq hname
  · exact hf.eq_of_mem hdistinct (List.mem_append_left _ hq) hname

/-- A path spells out a new node whose part is added for one of its ends. -/
theorem spelledBy_path {y : Endpoint} {addedFinish : List Part} {s f : NodePattern}
    (hs : Mentions m store parts x added s) (hf : Mentions m store (parts ++ added) y addedFinish f)
    (hdistinct : Distinct (parts ++ added ++ addedFinish))
    (hq : q ∈ parts ++ added ++ addedFinish) (hold : q ∉ parts)
    (hnew : q.mention.identity? store = none) :
    SpelledBy (q.spelled m store) [p.path m store s f] := by
  have hspelled : q.asEnd m store = q.spelled m store := by
    rw [asEnd, hnew]
    rfl
  have hnodes : ∀ s f, mentionsOf q.name [p.path m store s f] = [s, f].filter (·.name = q.name) :=
    fun _ _ => rfl
  by_cases hadded : q ∈ added
  · obtain ⟨rfl, -, rfl, -⟩ := hs.of_mem_added hadded
    refine ⟨[f].filter (·.name = q.name), ?_, fun n hn => ?_⟩
    · rw [hspelled]
      exact (hnodes _ f).trans (List.filter_cons_of_pos (decide_eq_true rfl))
    · obtain ⟨hn, hname⟩ := List.mem_filter.mp hn
      obtain rfl := List.mem_singleton.mp hn
      exact hf.eq_of_mem hdistinct (List.mem_append_right _ hadded) (of_decide_eq_true hname)
  · have hlast : q ∈ addedFinish := by
      simp only [List.mem_append] at hq
      tauto
    obtain ⟨rfl, -, rfl, hfirst⟩ := hf.of_mem_added hlast
    refine ⟨[], ?_, fun n hn => absurd hn List.not_mem_nil⟩
    have hsname : s.name ≠ q.name := by
      intro hname
      obtain ⟨r, hr, -, hrname⟩ := hs.exists_part
      have heq := hdistinct.eq_of_name (List.mem_append_left _ hr) hq (hrname.trans hname)
      exact hfirst q (heq ▸ hr) (hf.of_mem_added hlast).2.1
    rw [hspelled]
    refine (hnodes s _).trans ?_
    rw [List.filter_cons_of_neg (by simpa using hsname)]
    exact List.filter_cons_of_pos (decide_eq_true rfl)

/-- What is matched for some parts does not mention a new node. -/
theorem mentionsOf_matched (hdistinct : Distinct parts) (hadded : added ⊆ parts) (hp : p ∈ parts)
    (hnew : p.mention.identity? store = none) :
    mentionsOf p.name (added.flatMap (matched store)) = [] := by
  refine List.eq_nil_iff_forall_not_mem.mpr fun n hn => ?_
  obtain ⟨⟨pattern, hpattern, hnode⟩, hname⟩ := mem_mentionsOf.mp hn
  obtain ⟨q, hq, hknown, rfl⟩ := exists_of_mem_matched hpattern
  obtain rfl := List.mem_singleton.mp hnode
  rw [hdistinct.eq_of_name (hadded hq) hp hname, hnew] at hknown
  exact absurd hknown (by decide)

/-- What is created for an added part does not spell out a node that has a part already. -/
theorem Mentions.refersOnly_created (h : Mentions m store parts x added n)
    (hdistinct : Distinct (parts ++ added)) (hp : p ∈ parts) :
    RefersOnly p.name (added.flatMap (created m store)) := by
  intro n' hn'
  obtain ⟨⟨pattern, hpattern, hmem⟩, hname⟩ := mem_mentionsOf.mp hn'
  obtain ⟨q, hq, rfl⟩ := exists_of_mem_created hpattern
  obtain rfl := List.mem_singleton.mp hmem
  obtain ⟨-, hmention, -, hfirst⟩ := h.of_mem_added hq
  have heq := hdistinct.eq_of_name (List.mem_append_right _ hq) (List.mem_append_left _ hp) hname
  exact absurd hmention (hfirst q (heq ▸ hp))

/-- A new node that is a key of its own is created by a pattern of its own. -/
theorem spelledBy_created (hnew : p.mention.identity? store = none) :
    SpelledBy (p.spelled m store) ([p].flatMap (created m store)) := by
  refine ⟨[], ?_, fun n hn => absurd hn List.not_mem_nil⟩
  simp [created, hnew, mentionsOf, Pattern.nodes, spelled]

/-- The parts that a relationship adds for its ends are for what it mentions. -/
theorem mention_mem_mentioned {key : EntityKey} {e : Entity} {y : Endpoint}
    {addedFinish : List Part} {s f : NodePattern} (he : store.get? key = some e)
    (hstart : e.endpoint? .start = some x) (hfinish : e.endpoint? .finish = some y)
    (hs : Mentions m store parts x added s) (hf : Mentions m store (parts ++ added) y addedFinish f)
    (hp : p ∈ parts ++ added ++ addedFinish) (hfirst : ∀ q ∈ parts, q.mention ≠ p.mention) :
    p.mention ∈ Batch.mentioned store key := by
  have hmem := hf.exists_added.mp ⟨p, hp, rfl⟩
  rw [hs.exists_added] at hmem
  rw [Batch.mentioned_of_endpoints he hstart hfinish]
  rcases hmem with (⟨q, hq, hqmention⟩ | hx) | hy
  · exact absurd hqmention (hfirst q hq)
  · simp [hx]
  · simp [hy]

end Part

/-! ### Drawings -/

namespace Drawn

variable {m : Moment} {store : Store} {keys : List EntityKey} {parts : List Part}
  {matched created : List Pattern} {p : Part} {key : EntityKey}

theorem mem_mentions (h : Drawn m store keys parts matched created) {x : Endpoint} :
    (∃ p ∈ parts, p.mention = x) ↔ x ∈ keys.flatMap (Batch.mentioned store) := by
  induction h with
  | nothing => simp
  | @again keys parts matched created key h hkey ih =>
    rw [ih, List.flatMap_append, List.mem_append, List.flatMap_singleton]
    exact ⟨.inl, fun hx => hx.elim id fun hx => List.mem_flatMap.mpr ⟨key, hkey, hx⟩⟩
  | @node keys parts matched created key e added p' h he hnode hadded ih =>
    rw [List.flatMap_append, List.flatMap_singleton, Batch.mentioned_of_isNode he hnode,
      List.mem_append, List.mem_singleton, ← ih, hadded.exists_added, eq_comm]
  | @relationship keys parts matched created key e start finish addedStart addedFinish pStart pFinish
      part h he hrel hstart hfinish hdrawStart hdrawFinish hpart hnew ih =>
    rw [List.flatMap_append, List.flatMap_singleton, Batch.mentioned_of_endpoints he hstart hfinish,
      List.mem_append, ← ih, Part.exists_mem_append, hdrawFinish.exists_added,
      hdrawStart.exists_added]
    simp [hpart, eq_comm, or_assoc]

theorem nodup_mentions (h : Drawn m store keys parts matched created) :
    (parts.map (·.mention)).Nodup := by
  have hmentions : ∀ {parts added : List Part} {x : Endpoint} {n : NodePattern},
      (parts.map (·.mention)).Nodup → Part.Mentions m store parts x added n →
        ((parts ++ added).map (·.mention)).Nodup := by
    intro parts added x n hnodup hadded
    cases hadded with
    | again => rwa [List.append_nil]
    | first hmention hnew =>
      exact nodup_map_concat hnodup fun q hq heq => hnew q hq (heq.trans hmention)
  induction h with
  | nothing => exact .nil
  | again h hkey ih => exact ih
  | node h he hnode hadded ih => exact hmentions ih hadded
  | relationship h he hrel hstart hfinish hdrawStart hdrawFinish hpart hnew ih =>
    have hends := hmentions (hmentions ih hdrawStart) hdrawFinish
    exact nodup_map_concat hends fun q hq heq => hnew q hq (heq.trans hpart)

/-- A node that has no part yet is not mentioned. -/
theorem mentionsOf_eq_nil (h : Drawn m store keys parts matched created) {parts' : List Part}
    (hdistinct : Part.Distinct parts') (hsub : parts ⊆ parts') (hp : p ∈ parts')
    (hnew : ∀ q ∈ parts, q.mention ≠ p.mention) :
    mentionsOf p.name matched = [] ∧ mentionsOf p.name created = [] := by
  have hnone : ∀ pattern ∈ matched ++ created, ∀ n ∈ pattern.nodes, n.name ≠ p.name := by
    intro pattern hpattern n hn hname
    obtain ⟨q, hq, hqname⟩ := h.exists_part hpattern (Pattern.name_mem_names hn)
    exact hnew q hq (congrArg Part.mention
      (hdistinct.eq_of_name (hsub hq) hp (hqname.trans hname)))
  constructor
  · refine List.eq_nil_iff_forall_not_mem.mpr fun n hn => ?_
    obtain ⟨⟨pattern, hpattern, hnode⟩, hname⟩ := mem_mentionsOf.mp hn
    exact hnone pattern (List.mem_append_left _ hpattern) n hnode hname
  · refine List.eq_nil_iff_forall_not_mem.mpr fun n hn => ?_
    obtain ⟨⟨pattern, hpattern, hnode⟩, hname⟩ := mem_mentionsOf.mp hn
    exact hnone pattern (List.mem_append_right _ hpattern) n hnode hname

theorem find?_snoc_of_new (h : Drawn m store keys parts matched created)
    (hnew : ∀ q ∈ parts, q.mention ≠ .entity key) {k : EntityKey}
    (hk : Endpoint.entity key ∈ Batch.mentioned store k) :
    (keys ++ [k]).find? (fun k => Endpoint.entity key ∈ Batch.mentioned store k) = some k := by
  have hnone : keys.find? (fun k => Endpoint.entity key ∈ Batch.mentioned store k) = none := by
    rw [List.find?_eq_none]
    intro k' hk' hmem
    obtain ⟨q, hq, hmention⟩ :=
      h.mem_mentions.mpr (List.mem_flatMap.mpr ⟨k', hk', of_decide_eq_true hmem⟩)
    exact hnew q hq hmention
  rw [List.find?_append, hnone, Option.none_or, List.find?_singleton, if_pos (decide_eq_true hk)]

/-- What the first mention of a new node is: it stands in the clause that the key belongs to which
mentions the node first, and all other mentions are the node's variable alone. -/
def SpellsFirst (m : Moment) (store : Store) (keys : List EntityKey)
    (matched created : List Pattern) (p : Part) (key : EntityKey) : Prop :=
  ∃ first e, keys.find? (fun k => Endpoint.entity key ∈ Batch.mentioned store k) = some first ∧
    store.get? first = some e ∧
    if e.id.isNone then SpelledBy (p.spelled m store) created ∧ RefersOnly p.name matched
    else SpelledBy (p.spelled m store) matched ∧ RefersOnly p.name created

/-- Later keys mention the node by its variable. -/
theorem SpellsFirst.append (h : SpellsFirst m store keys matched created p key)
    {keys' : List EntityKey} {matched' created' : List Pattern} (hmatched : RefersOnly p.name matched')
    (hcreated : RefersOnly p.name created') :
    SpellsFirst m store (keys ++ keys') (matched ++ matched') (created ++ created') p key := by
  obtain ⟨first, e, hfind, he, hspelled⟩ := h
  refine ⟨first, e, by rw [List.find?_append, hfind, Option.some_or], he, ?_⟩
  split at hspelled
  · rename_i hid
    rw [if_pos hid]
    exact ⟨hspelled.1.append hcreated, hspelled.2.append hmatched⟩
  · rename_i hid
    rw [if_neg hid]
    exact ⟨hspelled.1.append hmatched, hspelled.2.append hcreated⟩

/-- The key that mentions a new node first has it spelled out in its own clause. Nothing in front of
that key has the node's variable, so only the patterns that the key adds are looked at. -/
theorem spellsFirst_snoc (h : Drawn m store keys parts matched created) {parts' : List Part}
    (hdistinct : Part.Distinct parts') (hsub : parts ⊆ parts') (hp : p ∈ parts')
    (hmention : p.mention = .entity key) (hfirst : ∀ q ∈ parts, q.mention ≠ p.mention)
    {k : EntityKey} {e : Entity} (he : store.get? k = some e)
    (hk : p.mention ∈ Batch.mentioned store k) {matched' created' : List Pattern}
    (hspelled : if e.id.isNone then
      SpelledBy (p.spelled m store) created' ∧ RefersOnly p.name matched'
    else SpelledBy (p.spelled m store) matched' ∧ RefersOnly p.name created') :
    SpellsFirst m store (keys ++ [k]) (matched ++ matched') (created ++ created') p key := by
  obtain ⟨hmatched, hcreated⟩ := h.mentionsOf_eq_nil hdistinct hsub hp hfirst
  rw [hmention] at hfirst hk
  refine ⟨k, e, h.find?_snoc_of_new hfirst hk, he, ?_⟩
  split at hspelled
  · rename_i hid
    rw [if_pos hid]
    exact ⟨hspelled.1.prepend hcreated, (refersOnly_of_eq_nil hmatched).append hspelled.2⟩
  · rename_i hid
    rw [if_neg hid]
    exact ⟨hspelled.1.prepend hmatched, (refersOnly_of_eq_nil hcreated).append hspelled.2⟩

/-- Where a new node is spelled out. A key that draws the node's part spells it out, and every later
key refers to that part: the induction follows the keys and asks at each one which of the two it
does. -/
theorem spells_first (h : Drawn m store keys parts matched created)
    (hdistinct : Part.Distinct parts) (hp : p ∈ parts) (hmention : p.mention = .entity key)
    {node : Entity} (hnode : store.get? key = some node) (hisNode : node.isNode = true)
    (hnew : node.id = none) : SpellsFirst m store keys matched created p key := by
  have hidentity : p.mention.identity? store = none := by
    rw [hmention, Endpoint.identity?_of_same rfl hnode, hnew]
  have hnothing : RefersOnly p.name [] := refersOnly_of_eq_nil rfl
  induction h with
  | nothing => exact absurd hp List.not_mem_nil
  | @again keys parts matched created k h hkey ih =>
    have hsame : SpellsFirst m store (keys ++ [k]) (matched ++ []) (created ++ []) p key :=
      (ih hdistinct hp).append hnothing hnothing
    rwa [List.append_nil, List.append_nil] at hsame
  | @node keys parts matched created k e added n h he hkind hadded ih =>
    have hmatched : RefersOnly p.name (added.flatMap (Part.matched store)) := refersOnly_of_eq_nil
      (Part.mentionsOf_matched hdistinct (List.subset_append_right ..) hp hidentity)
    rcases List.mem_append.mp hp with hold | hadd
    · exact (ih hdistinct.left hold).append hmatched (hadded.refersOnly_created hdistinct hold)
    · obtain ⟨rfl, hkey, -, hfirst⟩ := hadded.of_mem_added hadd
      obtain rfl := Endpoint.entity.inj (hkey.symm.trans hmention)
      obtain rfl := Option.some.inj (he.symm.trans hnode)
      refine h.spellsFirst_snoc hdistinct (List.subset_append_left ..) hp hmention
        (hmention ▸ hfirst) he ?_ ?_
      · rw [Batch.mentioned_of_isNode he hkind, hmention]
        exact List.mem_singleton_self _
      · rw [if_pos (by rw [hnew]; rfl)]
        exact ⟨Part.spelledBy_created hidentity, hmatched⟩
  | @relationship keys parts matched created k e start finish addedStart addedFinish pStart pFinish
      part h he hrel hstart hfinish hdrawStart hdrawFinish hpart hnewPart ih =>
    -- the last part is the relationship's, and the node is none
    have hp' : p ∈ parts ++ addedStart ++ addedFinish := by
      refine (List.mem_append.mp hp).resolve_right fun hlast => ?_
      obtain rfl := List.mem_singleton.mp hlast
      obtain rfl := Endpoint.entity.inj (hpart.symm.trans hmention)
      obtain rfl := Option.some.inj (he.symm.trans hnode)
      exact absurd (hrel.symm.trans hisNode) (by decide)
    have hends := hdistinct.left
    have hmatched : mentionsOf p.name
        ((addedStart ++ addedFinish).flatMap (Part.matched store)) = [] := by
      refine Part.mentionsOf_matched hends ?_ hp' hidentity
      rw [List.append_assoc]
      exact List.subset_append_right ..
    rw [List.append_assoc matched]
    by_cases hold : p ∈ parts
    · have hpath : RefersOnly p.name [part.path m store pStart pFinish] :=
        Part.refersOnly_path hdrawStart hdrawFinish hends hold
      refine (ih hends.left.left hold).append ((refersOnly_of_eq_nil hmatched).append ?_) ?_
      · split
        · exact hnothing
        · exact hpath
      · split
        · exact hpath
        · exact hnothing
    · have hpath : SpelledBy (p.spelled m store) [part.path m store pStart pFinish] :=
        Part.spelledBy_path hdrawStart hdrawFinish hends hp' hold hidentity
      have hfirst : ∀ q ∈ parts, q.mention ≠ p.mention := by
        intro q hq heq
        have hq' : q ∈ parts ++ addedStart ++ addedFinish := by simp [hq]
        exact hold (hends.eq_of_mention hq' hp' heq ▸ hq)
      have hk := Part.mention_mem_mentioned he hstart hfinish hdrawStart hdrawFinish hp' hfirst
      refine h.spellsFirst_snoc hends (fun q hq => by simp [hq]) hp' hmention hfirst he hk ?_
      split
      · exact ⟨hpath, (refersOnly_of_eq_nil hmatched).append hnothing⟩
      · exact ⟨hpath.prepend hmatched, hnothing⟩

/-- A variable that is matched belongs to something known or to an end of a known relationship. -/
theorem exists_of_matched (h : Drawn m store keys parts matched created) {pattern : Pattern}
    (hpattern : pattern ∈ matched) {name : String} (hname : name ∈ pattern.names) :
    ∃ p ∈ parts, p.name = name ∧ ((p.mention.identity? store).isSome = true ∨
      ∃ k ∈ keys, ∃ e role, store.get? k = some e ∧ e.id.isSome = true ∧
        e.endpoint? role = some p.mention) := by
  have hknown : ∀ {added : List Part}, pattern ∈ added.flatMap (Part.matched store) →
      ∃ p ∈ added, p.name = name ∧ (p.mention.identity? store).isSome = true := by
    intro added hmem
    obtain ⟨p, hp, hsome, rfl⟩ := Part.exists_of_mem_matched hmem
    exact ⟨p, hp, (List.mem_singleton.mp hname).symm, hsome⟩
  induction h with
  | nothing => exact absurd hpattern List.not_mem_nil
  | again h hkey ih =>
    obtain ⟨p, hp, hpname, hsome | ⟨k, hk, hend⟩⟩ := ih hpattern
    · exact ⟨p, hp, hpname, .inl hsome⟩
    · exact ⟨p, hp, hpname, .inr ⟨k, List.mem_append_left _ hk, hend⟩⟩
  | node h he hnode hadded ih =>
    rcases List.mem_append.mp hpattern with hold | hmatched
    · obtain ⟨p, hp, hpname, hsome | ⟨k, hk, hend⟩⟩ := ih hold
      · exact ⟨p, List.mem_append_left _ hp, hpname, .inl hsome⟩
      · exact ⟨p, List.mem_append_left _ hp, hpname, .inr ⟨k, List.mem_append_left _ hk, hend⟩⟩
    · obtain ⟨p, hp, hpname, hsome⟩ := hknown hmatched
      exact ⟨p, List.mem_append_right _ hp, hpname, .inl hsome⟩
  | @relationship keys parts matched created k e start finish addedStart addedFinish pStart pFinish
      part h he hrel hstart hfinish hdrawStart hdrawFinish hpart hnewPart ih =>
    rcases List.mem_append.mp hpattern with hbefore | hpath
    · rcases List.mem_append.mp hbefore with hold | hmatched
      · obtain ⟨p, hp, hpname, hsome | ⟨k, hk, hend⟩⟩ := ih hold
        · exact ⟨p, by simp [hp], hpname, .inl hsome⟩
        · exact ⟨p, by simp [hp], hpname, .inr ⟨k, List.mem_append_left _ hk, hend⟩⟩
      · obtain ⟨p, hp, hpname, hsome⟩ := hknown hmatched
        refine ⟨p, ?_, hpname, .inl hsome⟩
        rcases List.mem_append.mp hp with hp | hp <;> simp [hp]
    · obtain ⟨hid, hpath⟩ := List.mem_ite_nil_left.mp hpath
      obtain rfl := List.mem_singleton.mp hpath
      have hsome : e.id.isSome = true := by simpa [Option.isSome_iff_ne_none] using hid
      have hlast : k ∈ keys ++ [k] := List.mem_append_right _ (List.mem_singleton_self k)
      rcases Part.exists_of_mem_path hdrawStart hdrawFinish hname with
        rfl | ⟨p, hp, rfl | rfl, hpname⟩
      · refine ⟨part, by simp, rfl, .inl ?_⟩
        rwa [hpart, Endpoint.identity?_of_same rfl he]
      · exact ⟨p, List.mem_append_left _ hp, hpname,
          .inr ⟨k, hlast, e, .start, he, hsome, hstart⟩⟩
      · exact ⟨p, List.mem_append_left _ hp, hpname,
          .inr ⟨k, hlast, e, .finish, he, hsome, hfinish⟩⟩

/-- The ends of a known relationship are matched, also those that are new: its pattern is matched as
a whole, and they stand in it. This is how a new end comes not to be created. -/
theorem matches_end (h : Drawn m store keys parts matched created) (hdistinct : Part.Distinct parts)
    (hp : p ∈ parts) {k : EntityKey} (hk : k ∈ keys) {e : Entity} (he : store.get? k = some e)
    (hid : e.id.isSome = true) {role : EndpointRole} (hend : e.endpoint? role = some p.mention) :
    ∃ pattern ∈ matched, p.name ∈ pattern.names := by
  have hmentioned : ∀ {keys : List EntityKey} {parts matched created},
      Drawn m store keys parts matched created → k ∈ keys → ∃ q ∈ parts, q.mention = p.mention := by
    intro keys parts matched created h hk
    refine h.mem_mentions.mpr (List.mem_flatMap.mpr ⟨k, hk, ?_⟩)
    rw [Batch.mentioned, he]
    cases role <;> simp [hend]
  induction h with
  | nothing => exact absurd hk List.not_mem_nil
  | again h hkey ih =>
    refine ih hdistinct hp ((List.mem_append.mp hk).elim id fun hlast => ?_)
    exact List.mem_singleton.mp hlast ▸ hkey
  | @node keys parts matched created k' e' added n h he' hnode hadded ih =>
    rcases List.mem_append.mp hk with hold | hlast
    · obtain ⟨q, hq, hmention⟩ := hmentioned h hold
      obtain rfl := hdistinct.eq_of_mention (List.mem_append_left _ hq) hp hmention
      obtain ⟨pattern, hpattern, hname⟩ := ih hdistinct.left hq hold
      exact ⟨pattern, List.mem_append_left _ hpattern, hname⟩
    · -- a node has no ends
      obtain rfl := List.mem_singleton.mp hlast
      obtain rfl := Option.some.inj (he.symm.trans he')
      simp [Entity.endpoint?_of_isNode hnode] at hend
  | @relationship keys parts matched created k' e' start finish addedStart addedFinish pStart pFinish
      part h he' hrel hstart hfinish hdrawStart hdrawFinish hpart hnewPart ih =>
    have hends := hdistinct.left
    rcases List.mem_append.mp hk with hold | hlast
    · obtain ⟨q, hq, hmention⟩ := hmentioned h hold
      obtain rfl := hdistinct.eq_of_mention (by simp [hq]) hp hmention
      obtain ⟨pattern, hpattern, hname⟩ := ih hends.left.left hq hold
      exact ⟨pattern, by simp [hpattern], hname⟩
    · obtain rfl := List.mem_singleton.mp hlast
      obtain rfl := Option.some.inj (he.symm.trans he')
      have hnotNew : ¬ e.id.isNone = true := by simpa [Option.isSome_iff_ne_none] using hid
      refine ⟨part.path m store pStart pFinish, by simp [hnotNew], ?_⟩
      have hsub : parts ++ addedStart ++ addedFinish ⊆
          parts ++ addedStart ++ addedFinish ++ [part] := List.subset_append_left ..
      cases role with
      | start =>
        have hname := (hdrawStart.name_eq_iff hdistinct
          (fun q hq => hsub (List.mem_append_left _ hq)) hp).mpr
            (Option.some.inj (hstart.symm.trans hend))
        simp [Part.path, Pattern.names, hname]
      | finish =>
        have hname := (hdrawFinish.name_eq_iff hdistinct hsub hp).mpr
          (Option.some.inj (hfinish.symm.trans hend))
        simp [Part.path, Pattern.names, hname]

end Drawn

/-! ### New nodes of a batch -/

namespace Batch

/-- The entity is a relationship with an id, and one of its ends is a node without an id. -/
def HasNewEnd (store : Store) (key : EntityKey) : Prop :=
  ∃ e role other node, store.get? key = some e ∧ e.id.isSome = true ∧
    e.endpoint? role = some (.entity other) ∧ store.get? other = some node ∧ node.id = none

/-- Every new node is created, with its labels and its fields, and what is matched is known: a
stored entity with an id, or a bare id. -/
structure CreatesNew (m : Moment) (store : Store) (keys : List EntityKey) (d : Draft) : Prop where
  creates : ∀ key ∈ closure store keys, ∀ e name, store.get? key = some e → e.isNode = true →
    e.id = none → d.store.nameOf? key = some name →
      d.clauses.SpellsOut m d.clauses.created name e
  matched : ∀ pattern ∈ d.clauses.matched, ∀ name ∈ pattern.names,
    (∃ key ∈ closure store keys, ∃ e, d.store.nameOf? key = some name ∧ store.get? key = some e ∧
      e.id.isSome = true) ∨ ∃ id, (id, name) ∈ d.boundIds

/-- The first key that mentions a node. -/
def firstMention? (store : Store) (keys : List EntityKey) (key : EntityKey) : Option EntityKey :=
  keys.find? fun k => Endpoint.entity key ∈ mentioned store k

end Batch

namespace Draft.Writes

variable {m : Moment} {store : Store} {names : Names} {keys : List EntityKey} {parts : List Part}
  {d : Draft} {p : Part} {key : EntityKey} {e : Entity}

theorem distinct (h : Writes m store names keys parts d) : Part.Distinct parts :=
  ⟨h.follows.distinct, h.drawn.nodup_mentions⟩

/-- The fields of a part are bound to its values. -/
theorem binds_fields (h : Writes m store names keys parts d) (hp : p ∈ parts)
    (hmention : p.mention = .entity key) (he : store.get? key = some e) :
    List.Forall₂ (fun f v => f.1 = v.1 ∧ d.clauses.params.get? f.2 = some v.2)
      (p.fieldParams m store) (e.data m .graph).toList := by
  rw [← Part.map_fields hmention he, Part.fieldParams, List.forall₂_map_left_iff,
    List.forall₂_map_right_iff, List.forall₂_same]
  intro b hb
  refine ⟨rfl, ?_⟩
  rw [Dict.get?_eq_some_iff, h.follows.params.mem_iff]
  exact List.mem_flatMap.mpr ⟨p, hp, List.mem_append_left _ (List.mem_map_of_mem hb)⟩

/-- The first mention of a new node spells it out. -/
theorem spellsOut (h : Writes m store names keys parts d) (hp : p ∈ parts)
    (hmention : p.mention = .entity key) (he : store.get? key = some e) {patterns : List Pattern}
    (hspelled : SpelledBy (p.spelled m store) patterns) :
    d.clauses.SpellsOut m patterns p.name e := by
  refine ⟨p.fieldParams m store, ?_, h.binds_fields hp hmention he⟩
  have hlabels : p.mention.labels store = e.labels := by
    rw [hmention, Endpoint.labels_of_same rfl he]
  rwa [Part.spelled, hlabels] at hspelled

/-- A new node of the batch is spelled out in the clause of the key that mentions it first. -/
theorem spells_new (h : Writes m store names keys parts d) (hkey : key ∈ Batch.closure store keys)
    (he : store.get? key = some e) (hnode : e.isNode = true) (hnew : e.id = none) {name : String}
    (hname : d.store.nameOf? key = some name) :
    ∃ first b, Batch.firstMention? store keys key = some first ∧ store.get? first = some b ∧
      if b.id.isNone then
        d.clauses.SpellsOut m d.clauses.created name e ∧ RefersOnly name d.clauses.matched
      else d.clauses.SpellsOut m d.clauses.matched name e ∧ RefersOnly name d.clauses.created := by
  obtain ⟨p, hp, hmention, hpname⟩ := h.follows.exists_part hkey
  obtain rfl := Option.some.inj (hpname.symm.trans hname)
  obtain ⟨first, b, hfirst, hb, hspelled⟩ :=
    h.drawn.spells_first h.distinct hp hmention he hnode hnew
  refine ⟨first, b, hfirst, hb, ?_⟩
  split at hspelled
  · rename_i hid
    rw [if_pos hid]
    exact ⟨h.spellsOut hp hmention he hspelled.1, hspelled.2⟩
  · rename_i hid
    rw [if_neg hid]
    exact ⟨h.spellsOut hp hmention he hspelled.1, hspelled.2⟩

/-- A save that creates its new nodes and matches only what is known has no key with a new end: the
end would be matched, and a variable stands for one thing. -/
theorem not_hasNewEnd (h : Writes m store names keys parts d)
    (hcreates : Batch.CreatesNew m store keys d) {k : EntityKey} (hk : k ∈ keys) :
    ¬ Batch.HasNewEnd store k := by
  rintro ⟨e, role, other, node, he, hid, hend, hnode, hnew⟩
  obtain ⟨p, hp, hmention⟩ : ∃ p ∈ parts, p.mention = .entity other := by
    refine h.drawn.mem_mentions.mpr (List.mem_flatMap.mpr ⟨k, hk, ?_⟩)
    exact Batch.mem_mentioned_iff.mpr (.inr ⟨e, role, he, hend⟩)
  obtain ⟨pattern, hpattern, hname⟩ :=
    h.drawn.matches_end h.distinct hp hk he hid (hend.trans (congrArg some hmention.symm))
  rcases hcreates.matched pattern hpattern p.name hname with
    ⟨other', -, e', hname', he', hid'⟩ | ⟨id, hbare⟩
  · obtain rfl := h.follows.named.distinct other' other p.name hname'
      (h.follows.entity p hp other hmention)
    obtain rfl := Option.some.inj (he'.symm.trans hnode)
    simp [hnew] at hid'
  · rw [h.follows.boundIds] at hbare
    obtain ⟨q, hq, hqmention, hqname⟩ := Part.mention_of_mem_bound hbare
    rw [h.distinct.eq_of_name hq hp hqname, hmention] at hqmention
    cases hqmention

/-- Without new ends the key that mentions a new node first has no id, and its clause is the created
one. -/
theorem creates_new (h : Writes m store names keys parts d)
    (hnone : ∀ k ∈ keys, ¬ Batch.HasNewEnd store k) (hkey : key ∈ Batch.closure store keys)
    (he : store.get? key = some e) (hnode : e.isNode = true) (hnew : e.id = none) {name : String}
    (hname : d.store.nameOf? key = some name) :
    d.clauses.SpellsOut m d.clauses.created name e := by
  obtain ⟨first, b, hfirst, hb, hspelled⟩ := h.spells_new hkey he hnode hnew hname
  have hmem := of_decide_eq_true (List.find?_some (p := fun k =>
    decide (Endpoint.entity key ∈ Batch.mentioned store k)) hfirst)
  have hid : b.id.isNone = true := by
    by_contra hid
    have hsome : b.id.isSome = true := by simpa [Option.isSome_iff_ne_none] using hid
    rcases Batch.mem_mentioned_iff.mp hmem with rfl | ⟨b', role, hb', hend⟩
    · obtain rfl := Option.some.inj (hb.symm.trans he)
      simp [hnew] at hsome
    · exact hnone first (List.mem_of_find?_eq_some hfirst)
        ⟨b', role, key, e, hb', Option.some.inj (hb.symm.trans hb') ▸ hsome, hend, he, hnew⟩
  rw [if_pos hid] at hspelled
  exact hspelled.1

/-- Without new ends all that is matched is known: what a relationship with an id draws into the
clause has an id as well. -/
theorem matches_known (h : Writes m store names keys parts d)
    (hnone : ∀ k ∈ keys, ¬ Batch.HasNewEnd store k) {pattern : Pattern}
    (hpattern : pattern ∈ d.clauses.matched) {name : String} (hname : name ∈ pattern.names) :
    (∃ key ∈ Batch.closure store keys, ∃ e, d.store.nameOf? key = some name ∧
      store.get? key = some e ∧ e.id.isSome = true) ∨ ∃ id, (id, name) ∈ d.boundIds := by
  obtain ⟨p, hp, rfl, hwhy⟩ := h.drawn.exists_of_matched hpattern hname
  cases hmention : p.mention with
  | id id =>
    exact .inr ⟨id, h.follows.boundIds ▸ Part.mem_bound hp hmention⟩
  | entity key =>
    have hstored := h.follows.entity p hp key hmention
    obtain ⟨e', he', -⟩ := Option.bind_eq_some_iff.mp hstored
    obtain ⟨e, he, -⟩ := Endpoint.exists_of_same h.follows.naming.same he'
    have hidentity : p.mention.identity? store = e.id := by
      rw [hmention, Endpoint.identity?_of_same rfl he]
    refine .inl ⟨key, h.follows.mem_closure hp hmention, e, hstored, he, ?_⟩
    rcases hwhy with hsome | ⟨k, hk, b, role, hb, hid, hend⟩
    · rwa [hidentity] at hsome
    · by_contra hsome
      have hnew : e.id = none := by simpa using hsome
      exact hnone k hk ⟨b, role, key, e, hb, hid, hmention ▸ hend, he, hnew⟩

/-- A save creates its new nodes and matches only what is known, exactly if no relationship with an
id has a new end. -/
theorem createsNew_iff (h : Writes m store names keys parts d) :
    Batch.CreatesNew m store keys d ↔ ∀ key ∈ keys, ¬ Batch.HasNewEnd store key := by
  constructor
  · exact fun hcreates _ hk => h.not_hasNewEnd hcreates hk
  · intro hnone
    constructor
    case creates =>
      exact fun _ hkey _ _ he hnode hnew hname => h.creates_new hnone hkey he hnode hnew hname
    case matched => exact fun _ hpattern _ hname => h.matches_known hnone hpattern hname

end Draft.Writes

/-- **When a save creates its new nodes.** Every new node of an accepted batch is spelled out once,
with its labels and its fields, in the clause of the key that mentions it first: it is created if
that key has no id, and matched if it has one. So all new nodes are created, and nothing is matched
but what is known, exactly if no relationship with an id among the keys has a new end. -/
theorem composeSave_creates (m : Moment) {store : Store} {names : Names} {keys : List EntityKey}
    (hnamed : store.NamedBy names) (hok : Batch.check store keys = .ok ()) :
    (composeSave m store names keys).outcome =
        .ok (Batch.draft m store names keys).clauses.toStatement ∧
      (Batch.CreatesNew m store keys (Batch.draft m store names keys) ↔
        ∀ key ∈ keys, ¬ Batch.HasNewEnd store key) ∧
      ∀ key ∈ Batch.closure store keys, ∀ e, store.get? key = some e → e.isNode = true →
        e.id = none →
          ∃ name, (composeSave m store names keys).store.nameOf? key = some name ∧
            ∃ first b, Batch.firstMention? store keys key = some first ∧
              store.get? first = some b ∧
              let clauses := (Batch.draft m store names keys).clauses
              if b.id.isNone then
                clauses.SpellsOut m clauses.created name e ∧ RefersOnly name clauses.matched
              else clauses.SpellsOut m clauses.matched name e ∧ RefersOnly name clauses.created := by
  obtain ⟨parts, h⟩ := Batch.exists_writes (m := m) hnamed hok
  rw [Batch.composeSave_eq hok]
  refine ⟨rfl, h.createsNew_iff, fun key hkey e he hnode hnew => ?_⟩
  obtain ⟨p, -, -, hname⟩ := h.follows.exists_part hkey
  exact ⟨p.name, hname, h.spells_new hkey he hnode hnew hname⟩

/-- A relationship with an id from a node that was never saved to a bare id. -/
def newEndStore : Store :=
  ⟨[(Entity.node "Node" ["Node"] (.empty true)).load [("name", .string "x")],
    { Entity.relationship "Knows" [] (some (.entity ⟨0⟩)) (some (.id 2)) (.empty true) with
      id := some 7 }]⟩

theorem newEndStore_namedBy : newEndStore.NamedBy .fresh := by
  refine Store.namedBy_of_nameOf?_eq_none ?_ .fresh
  rintro ⟨_ | _ | n⟩ <;> rfl

/-- When the node is a key in front of the relationship, it is created. -/
theorem composeSave_creates_listed :
    ∃ name e, newEndStore.get? ⟨0⟩ = some e ∧
      (composeSave .epoch newEndStore .fresh [⟨0⟩, ⟨1⟩]).store.nameOf? ⟨0⟩ = some name ∧
      let clauses := (Batch.draft .epoch newEndStore .fresh [⟨0⟩, ⟨1⟩]).clauses
      clauses.SpellsOut .epoch clauses.created name e ∧ RefersOnly name clauses.matched := by
  have hok : Batch.check newEndStore [⟨0⟩, ⟨1⟩] = .ok () := rfl
  obtain ⟨name, hname, first, b, hfirst, hb, hspelled⟩ :=
    (composeSave_creates .epoch newEndStore_namedBy hok).2.2 ⟨0⟩ (by decide) _ rfl rfl rfl
  obtain rfl : ⟨0⟩ = first := Option.some.inj hfirst
  obtain rfl := Option.some.inj hb
  exact ⟨name, _, rfl, hname, hspelled⟩

/-- When only the relationship is saved, its new end is matched and nothing is created. The
statement asks for a relationship that begins at a node with the labels and fields of the new one.
-/
theorem composeSave_matches_new_end :
    newEndStore.NamedBy .fresh ∧ Batch.check newEndStore [⟨1⟩] = .ok () ∧
      ⟨0⟩ ∈ Batch.closure newEndStore [⟨1⟩] ∧
      (Batch.draft .epoch newEndStore .fresh [⟨1⟩]).clauses.created = [] ∧
      ¬ Batch.CreatesNew .epoch newEndStore [⟨1⟩] (Batch.draft .epoch newEndStore .fresh [⟨1⟩]) := by
  have hcreated : (Batch.draft .epoch newEndStore .fresh [⟨1⟩]).clauses.created = [] := rfl
  refine ⟨newEndStore_namedBy, rfl, by decide, hcreated, fun hcreates => ?_⟩
  obtain ⟨name, hname⟩ :
    ∃ name, (Batch.draft .epoch newEndStore .fresh [⟨1⟩]).store.nameOf? ⟨0⟩ = some name := ⟨_, rfl⟩
  obtain ⟨fields, ⟨rest, hmentions, -⟩, -⟩ :=
    hcreates.creates ⟨0⟩ (by decide) _ name rfl rfl rfl hname
  rw [hcreated] at hmentions
  cases hmentions

end GraphMapping
