import GraphMapping.Proofs.Statement.Parts

/-!
# What is matched and what is created

The patterns of a save statement are drawn key by key. A node that is mentioned for the first time
gets a part: a known one, with an id, is matched, and a new one is spelled out, by itself when it is
a key of the batch and inside the relationship's pattern when it is an end. Every later mention is
its variable alone. A relationship is drawn after its ends, into the clause that is chosen by
*its own* id.

`Drawn` is this as a relation between the keys written so far, their parts, and the two clauses. It
has a case for each kind of key, so a property of the clauses is proved by induction on it, without
going back to how drafts are composed.

## Main definitions

* `Pattern.nodes`, `Pattern.names`, `Pattern.params`: what a pattern mentions.
* `Part.Mentions`: how a node is mentioned next to the parts that are there.
* `Drawn`: the patterns that keys of a batch lead to.

## Main results

* `Drawn.exists_part`: every variable that is mentioned belongs to a part.
-/

namespace GraphMapping

/-! ### What patterns mention -/

namespace Pattern

/-- The nodes of a pattern in the order of its text. -/
def nodes : Pattern → List NodePattern
  | .node n => [n]
  | .path start _ finish => [start, finish]
  | .betweenAny _ => []

/-- The variables of a pattern in the order of its text. -/
def names : Pattern → List String
  | .node n => [n.name]
  | .path start relationship finish => [start.name, relationship.name, finish.name]
  | .betweenAny relationship => [relationship.name]

/-- The parameters of a pattern in the order of its text. -/
def params : Pattern → List String
  | .node n => n.fields.map Prod.snd
  | .path start relationship finish =>
    start.fields.map Prod.snd ++ relationship.fields.map Prod.snd ++ finish.fields.map Prod.snd
  | .betweenAny relationship => relationship.fields.map Prod.snd

theorem name_mem_names {p : Pattern} {n : NodePattern} (h : n ∈ p.nodes) : n.name ∈ p.names := by
  cases p with
  | node n' => simp_all [nodes, names]
  | path start relationship finish =>
    simp only [nodes, List.mem_cons, List.not_mem_nil, or_false] at h
    rcases h with rfl | rfl <;> simp [names]
  | betweenAny relationship => exact absurd h List.not_mem_nil

end Pattern

/-! ### Patterns of parts -/

namespace Part

variable (m : Moment) (store : Store)

/-- What creates a new node that is a key of the batch. -/
def created (part : Part) : List Pattern :=
  if (part.mention.identity? store).isNone then [.node (part.spelled m store)] else []

/-- The pattern of a relationship between two ends. A new one is spelled out. -/
def path (part : Part) (start finish : NodePattern) : Pattern :=
  .path start
    ⟨part.name, part.mention.labels store,
      if (part.mention.identity? store).isNone then part.fieldParams m store else []⟩
    finish

/-- A node is mentioned next to the given parts: it has one of them and is mentioned by its variable,
or a part is added for it. -/
inductive Mentions (parts : List Part) (x : Endpoint) : List Part → NodePattern → Prop
  | again {p : Part} (hp : p ∈ parts) (hmention : p.mention = x) :
    Mentions parts x [] ⟨p.name, [], []⟩
  | first {p : Part} (hmention : p.mention = x) (hnew : ∀ q ∈ parts, q.mention ≠ x) :
    Mentions parts x [p] (p.asEnd m store)

variable {m store} {parts added addedFinish : List Part} {x y : Endpoint} {p : Part}
  {n start finish : NodePattern} {pattern : Pattern} {name : String}

theorem name_asEnd (p : Part) : (p.asEnd m store).name = p.name := by
  rw [asEnd]
  split <;> rfl

/-- A mention has the variable of a part for it. -/
theorem Mentions.exists_part (h : Mentions m store parts x added n) :
    ∃ p ∈ parts ++ added, p.mention = x ∧ p.name = n.name := by
  cases h with
  | again hp hmention => exact ⟨_, List.mem_append_left _ hp, hmention, rfl⟩
  | @first p hmention hnew =>
    exact ⟨p, List.mem_append_right _ (List.mem_singleton_self p), hmention, (name_asEnd p).symm⟩

/-- What is matched for some parts are the known ones, by their variables. -/
theorem exists_of_mem_matched (h : pattern ∈ added.flatMap (matched store)) :
    ∃ p ∈ added, (p.mention.identity? store).isSome = true ∧ pattern = .node ⟨p.name, [], []⟩ := by
  obtain ⟨p, hp, hmatched⟩ := List.mem_flatMap.mp h
  refine ⟨p, hp, ?_⟩
  rw [matched] at hmatched
  split at hmatched
  · exact absurd hmatched List.not_mem_nil
  · rename_i hknown
    exact ⟨Option.isSome_iff_ne_none.mpr (by simpa using hknown), List.mem_singleton.mp hmatched⟩

/-- What is created for some parts are the new ones, spelled out. -/
theorem exists_of_mem_created (h : pattern ∈ added.flatMap (created m store)) :
    ∃ p ∈ added, pattern = .node (p.spelled m store) := by
  obtain ⟨p, hp, hcreated⟩ := List.mem_flatMap.mp h
  refine ⟨p, hp, ?_⟩
  rw [created] at hcreated
  split at hcreated
  · exact List.mem_singleton.mp hcreated
  · exact absurd hcreated List.not_mem_nil

/-- The variables of a path are those of its parts. -/
theorem exists_of_mem_path (hstart : Mentions m store parts x added start)
    (hfinish : Mentions m store (parts ++ added) y addedFinish finish)
    (h : name ∈ (p.path m store start finish).names) :
    name = p.name ∨ ∃ q ∈ parts ++ added ++ addedFinish, (q.mention = x ∨ q.mention = y) ∧
      q.name = name := by
  simp only [path, Pattern.names, List.mem_cons, List.not_mem_nil, or_false] at h
  rcases h with rfl | rfl | rfl
  · obtain ⟨q, hq, hmention, hname⟩ := hstart.exists_part
    exact .inr ⟨q, List.mem_append_left _ hq, .inl hmention, hname⟩
  · exact .inl rfl
  · obtain ⟨q, hq, hmention, hname⟩ := hfinish.exists_part
    exact .inr ⟨q, hq, .inr hmention, hname⟩

end Part

/-! ### Patterns of a batch -/

/-- The keys, in order, lead to the parts and to the patterns of the two clauses. -/
inductive Drawn (m : Moment) (store : Store) :
    List EntityKey → List Part → List Pattern → List Pattern → Prop
  | nothing : Drawn m store [] [] [] []
  /-- A relationship that is a key for the second time is not drawn again. -/
  | again {keys parts matched created key} (h : Drawn m store keys parts matched created)
    (hkey : key ∈ keys) : Drawn m store (keys ++ [key]) parts matched created
  | node {keys parts matched created key e added p} (h : Drawn m store keys parts matched created)
    (he : store.get? key = some e) (hnode : e.isNode = true)
    (hadded : Part.Mentions m store parts (.entity key) added p) :
    Drawn m store (keys ++ [key]) (parts ++ added) (matched ++ added.flatMap (Part.matched store))
      (created ++ added.flatMap (Part.created m store))
  | relationship {keys parts matched created key e start finish addedStart addedFinish pStart pFinish
      part} (h : Drawn m store keys parts matched created)
    (he : store.get? key = some e) (hrel : e.isNode = false)
    (hstart : e.endpoint? .start = some start) (hfinish : e.endpoint? .finish = some finish)
    (hdrawStart : Part.Mentions m store parts start addedStart pStart)
    (hdrawFinish : Part.Mentions m store (parts ++ addedStart) finish addedFinish pFinish)
    (hpart : part.mention = .entity key)
    (hnew : ∀ p ∈ parts ++ addedStart ++ addedFinish, p.mention ≠ .entity key) :
    Drawn m store (keys ++ [key]) (parts ++ addedStart ++ addedFinish ++ [part])
      (matched ++ (addedStart ++ addedFinish).flatMap (Part.matched store) ++
        if e.id.isNone then [] else [part.path m store pStart pFinish])
      (created ++ if e.id.isNone then [part.path m store pStart pFinish] else [])

namespace Drawn

variable {m : Moment} {store : Store} {keys : List EntityKey} {parts : List Part}
  {matched created : List Pattern}

/-- Every variable that is mentioned belongs to a part. As the parts have different variables, this
tells what a variable in a clause stands for. -/
theorem exists_part (h : Drawn m store keys parts matched created) {pattern : Pattern}
    (hpattern : pattern ∈ matched ++ created) {name : String} (hname : name ∈ pattern.names) :
    ∃ p ∈ parts, p.name = name := by
  induction h with
  | nothing => exact absurd hpattern List.not_mem_nil
  | again h hkey ih => exact ih hpattern
  | @node keys parts matched created key e added p' h he hnode hadded ih =>
    have hcases : pattern ∈ matched ++ created ∨ pattern ∈ added.flatMap (Part.matched store) ∨
        pattern ∈ added.flatMap (Part.created m store) := by
      simp only [List.mem_append] at hpattern ⊢
      tauto
    rcases hcases with hold | hmatched | hcreated
    · obtain ⟨p, hp, hpname⟩ := ih hold
      exact ⟨p, List.mem_append_left _ hp, hpname⟩
    · obtain ⟨p, hp, -, rfl⟩ := Part.exists_of_mem_matched hmatched
      exact ⟨p, List.mem_append_right _ hp, (List.mem_singleton.mp hname).symm⟩
    · obtain ⟨p, hp, rfl⟩ := Part.exists_of_mem_created hcreated
      exact ⟨p, List.mem_append_right _ hp, (List.mem_singleton.mp hname).symm⟩
  | @relationship keys parts matched created key e start finish addedStart addedFinish pStart pFinish
      part h he hrel hstart hfinish hdrawStart hdrawFinish hpart hnew ih =>
    have hcases : pattern ∈ matched ++ created ∨
        pattern ∈ (addedStart ++ addedFinish).flatMap (Part.matched store) ∨
        pattern = part.path m store pStart pFinish := by
      simp only [List.mem_append, List.mem_ite_nil_left, List.mem_ite_nil_right,
        List.mem_singleton] at hpattern ⊢
      tauto
    rcases hcases with hold | hmatched | rfl
    · obtain ⟨p, hp, hpname⟩ := ih hold
      exact ⟨p, by simp [hp], hpname⟩
    · obtain ⟨p, hp, -, rfl⟩ := Part.exists_of_mem_matched hmatched
      refine ⟨p, ?_, (List.mem_singleton.mp hname).symm⟩
      rcases List.mem_append.mp hp with hp | hp <;> simp [hp]
    · rcases Part.exists_of_mem_path hdrawStart hdrawFinish hname with rfl | ⟨p, hp, -, hpname⟩
      · exact ⟨part, by simp, rfl⟩
      · exact ⟨p, List.mem_append_left _ hp, hpname⟩

end Drawn

end GraphMapping
