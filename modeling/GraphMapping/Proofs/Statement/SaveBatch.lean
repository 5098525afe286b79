import GraphMapping.Proofs.Property.Slots
import GraphMapping.Proofs.Statement.SaveSteps

/-!
# What a save statement contains

The parts of a save statement are known: what the batch mentions, each once. This module reads the
statement off its parts. The variables returned are those of the stored entities, every id that is
known is asked for once, and the parameters are one for each field to write and each id to ask for,
all different.

## Main definitions

* `Batch.closure`, `Batch.bareIds`: the stored entities and the bare ids that a batch mentions.
* `Slot`, `Batch.slots`: the values that a statement has to carry.
* `Batch.draft`: the draft of a batch.
* `Batch.WrittenBy`: clauses write a batch and nothing else.

## Main results

* `composeSave_writes`: the statement of an accepted batch writes the batch and nothing else.
-/

namespace GraphMapping

/-! ### Repetition -/

/-- A selection that tells its elements apart commutes with dropping repetitions. So the stored
entities among all mentions, each once, are the closure of the batch, in its order. -/
theorem filterMap_eraseDups {α β : Type} [BEq α] [LawfulBEq α] [BEq β] [LawfulBEq β]
    {f : α → Option β} (hf : ∀ a b c, f a = some c → f b = some c → a = b) (l : List α) :
    l.eraseDups.filterMap f = (l.filterMap f).eraseDups := by
  generalize hn : l.length = n
  induction n using Nat.strongRecOn generalizing l with
  | ind n ih =>
    cases l with
    | nil => rfl
    | cons a rest =>
      have hlt : (rest.filter fun b => !b == a).length < n := by
        have := List.length_filter_le (fun b => !b == a) rest
        rw [List.length_cons] at hn
        omega
      rw [List.eraseDups_cons]
      cases hfa : f a with
      | none =>
        have hskip : (rest.filter fun b => !b == a).filterMap f = rest.filterMap f := by
          rw [List.filterMap_filter]
          refine List.filterMap_congr fun b _ => ?_
          by_cases hb : b = a
          · simp [hb, hfa]
          · simp [hb]
        rw [List.filterMap_cons_none hfa, List.filterMap_cons_none hfa, ih _ hlt _ rfl, hskip]
      | some c =>
        have hskip : (rest.filter fun b => !b == a).filterMap f =
            (rest.filterMap f).filter fun d => !d == c := by
          rw [List.filterMap_filter, List.filter_filterMap]
          refine List.filterMap_congr fun b _ => ?_
          by_cases hb : b = a
          · simp [hb, hfa, Option.filter]
          · cases hfb : f b with
            | none => simp [hb]
            | some c' =>
              have hne : c' ≠ c := fun heq => hb (hf b a c (heq ▸ hfb) hfa)
              simp [hb, hne, Option.filter]
        rw [List.filterMap_cons_some hfa, List.filterMap_cons_some hfa, List.eraseDups_cons,
          ih _ hlt _ rfl, hskip]

/-- Among the items of several owners with different names, those that have the name of an owner are
its own. -/
theorem filter_flatMap_of_nodup {α β : Type} {items : α → List β} {owner : α → String}
    {name : β → String} (hname : ∀ a, ∀ b ∈ items a, name b = owner a) {l : List α}
    (h : (l.map owner).Nodup) {a : α} (ha : a ∈ l) :
    (l.flatMap items).filter (name · = owner a) = items a := by
  have hothers : ∀ a', owner a' ≠ owner a → (items a').filter (name · = owner a) = [] := by
    intro a' hne
    rw [List.filter_eq_nil_iff]
    intro b hb heq
    exact hne ((hname a' b hb).symm.trans (of_decide_eq_true heq))
  induction l with
  | nil => exact absurd ha List.not_mem_nil
  | cons first rest ih =>
    obtain ⟨hfirst, hrest⟩ := List.nodup_cons.mp h
    rw [List.flatMap_cons, List.filter_append]
    rcases List.mem_cons.mp ha with rfl | ha
    · have hself : (items a).filter (name · = owner a) = items a :=
        List.filter_eq_self.mpr fun b hb => decide_eq_true (hname a b hb)
      have hrest : (rest.flatMap items).filter (name · = owner a) = [] := by
        rw [List.filter_flatMap, List.flatMap_eq_nil_iff]
        exact fun a' ha' => hothers a' fun heq => hfirst (List.mem_map.mpr ⟨a', ha', heq⟩)
      rw [hself, hrest, List.append_nil]
    · rw [hothers first fun heq => hfirst (List.mem_map.mpr ⟨a, ha, heq.symm⟩), List.nil_append,
        ih hrest ha]

/-- Entities and bare ids can be listed apart. A statement takes them as they come, and what it is
said to carry is listed in two groups. -/
theorem Endpoint.perm_filterMap (l : List Endpoint) :
    l.Perm ((l.filterMap Endpoint.key?).map .entity ++
      (l.filterMap Endpoint.bareId?).map Endpoint.id) := by
  induction l with
  | nil => exact .refl _
  | cons x rest ih =>
    cases x with
    | entity key => exact ih.cons _
    | id id => exact (ih.cons _).trans List.perm_middle.symm

/-! ### What a batch demands -/

/-- A value that a statement has to carry: of a field, or of the id when there is no field. -/
structure Slot where
  owner : Endpoint
  field : Option String
  value : Value

/-- The values to carry for a stored entity or a bare id. -/
def Endpoint.slots (m : Moment) (store : Store) (x : Endpoint) : List Slot :=
  (x.values m store).map (fun pair => ⟨x, some pair.1, pair.2⟩) ++
    (x.identity? store).toList.map fun i => ⟨x, none, .integer i⟩

namespace Batch

/-- The stored entities that a batch mentions, in order, each once. -/
def closure (store : Store) (keys : List EntityKey) : List EntityKey :=
  ((keys.flatMap (mentioned store)).filterMap Endpoint.key?).eraseDups

/-- The bare ids that a batch mentions, in order, each once. -/
def bareIds (store : Store) (keys : List EntityKey) : List Int64 :=
  ((keys.flatMap (mentioned store)).filterMap Endpoint.bareId?).eraseDups

/-- The values to carry for a batch. -/
def slots (m : Moment) (store : Store) (keys : List EntityKey) : List Slot :=
  ((closure store keys).map Endpoint.entity ++ (bareIds store keys).map Endpoint.id).flatMap
    (Endpoint.slots m store)

/-- The draft of a batch. -/
def draft (m : Moment) (store : Store) (names : Names) (keys : List EntityKey) : Draft :=
  keys.foldl (fun d key => d.save m key) { store, names }

/-- The clauses ask for the id of the variable exactly once. -/
def AsksOnce (clauses : Clauses) (name : String) (id : Int64) : Prop :=
  ∃ param, clauses.conditions.filter (·.name = name) = [⟨name, param⟩] ∧
    clauses.params.get? param = some (.integer id)

/-- The clauses write the batch and nothing else. In the store after composing its entities have
their variables; `bindings` tells the parameter of each slot, and `bare` the variables of the bare
ids. -/
structure WrittenBy (m : Moment) (store : Store) (names : Names) (keys : List EntityKey)
    (store' : Store) (clauses : Clauses) (bindings : List (Slot × String))
    (bare : List (Int64 × String)) : Prop where
  /-- The variables of the stored entities are returned, in order and without repetition. -/
  returned : clauses.returned.map some = (closure store keys).map store'.nameOf?
  nodup_returned : clauses.returned.Nodup
  /-- There is one parameter for each slot. -/
  slots : (bindings.map Prod.fst).Perm (slots m store keys)
  nodup_params : (bindings.map Prod.snd).Nodup
  /-- The parameters are bound to the values of their slots, and there are no others. -/
  params : clauses.params.toList.Perm (bindings.map fun b => (b.2, b.1.value))
  /-- Each bare id has a fresh variable. -/
  bareIds : bare.map Prod.fst = bareIds store keys
  nodup_bare : (bare.map Prod.snd).Nodup
  fresh : ∀ id name, (id, name) ∈ bare →
    ¬ names.Issued name ∧ ∀ key, store'.nameOf? key ≠ some name
  /-- Every id that is known is asked for once, and nothing else is asked for. -/
  asks : ∀ key ∈ closure store keys, ∀ e name, store.get? key = some e →
    store'.nameOf? key = some name → ∀ id, e.id = some id → AsksOnce clauses name id
  asks_not : ∀ key ∈ closure store keys, ∀ e name, store.get? key = some e →
    store'.nameOf? key = some name → e.id = none → clauses.conditions.filter (·.name = name) = []
  asks_bare : ∀ id name, (id, name) ∈ bare → AsksOnce clauses name id
  asks_only : ∀ c ∈ clauses.conditions,
    (∃ key ∈ closure store keys, store'.nameOf? key = some c.name) ∨ ∃ id, (id, c.name) ∈ bare

end Batch

/-! ### Reading a statement off its parts -/

namespace Part

variable {m : Moment} {store : Store}

/-- The parameters of a part with what they are for. -/
def bindings (m : Moment) (store : Store) (part : Part) : List (Slot × String) :=
  (part.fields m store).map (fun b => (⟨part.mention, some b.field, b.value⟩, b.param)) ++
    (part.mention.identity? store).toList.map fun i =>
      (⟨part.mention, none, .integer i⟩, part.idParam m store)

theorem map_fst_bindings (part : Part) :
    (part.bindings m store).map Prod.fst = part.mention.slots m store := by
  have hfields : (part.fields m store).map (fun b => Slot.mk part.mention (some b.field) b.value) =
      (part.mention.values m store).map fun pair => ⟨part.mention, some pair.1, pair.2⟩ := by
    conv_rhs => rw [← map_numberFields part.name part.first (part.mention.values m store)]
    rw [List.map_map]
    rfl
  rw [bindings, Endpoint.slots, List.map_append, List.map_map, List.map_map, ← hfields]
  rfl

theorem params_eq_map_bindings (part : Part) :
    part.params m store = (part.bindings m store).map fun b => (b.2, b.1.value) := by
  rw [params, bindings, List.map_append, List.map_map, List.map_map]
  rfl

/-- Among the conditions of several parts, those on a variable are those of its part. -/
theorem filter_conditions {parts : List Part} (h : (parts.map (·.name)).Nodup) {part : Part}
    (hpart : part ∈ parts) :
    (parts.flatMap (conditions m store)).filter (·.name = part.name) = part.conditions m store :=
  filter_flatMap_of_nodup (fun _ _ => name_of_mem_conditions) h hpart

theorem returned_sublist (parts : List Part) :
    (parts.flatMap returned).Sublist (parts.map (·.name)) := by
  induction parts with
  | nil => exact .slnil
  | cons p rest ih =>
    rw [List.flatMap_cons, List.map_cons]
    cases hmention : p.mention with
    | entity key =>
      have hreturned : p.returned = [p.name] := by rw [returned, hmention]
      rw [hreturned]
      exact ih.cons_cons p.name
    | id i =>
      have hreturned : p.returned = [] := by rw [returned, hmention]
      rw [hreturned]
      exact ih.cons p.name

theorem map_fst_bound (parts : List Part) :
    (parts.filterMap bound?).map Prod.fst = (parts.map (·.mention)).filterMap Endpoint.bareId? := by
  rw [List.map_filterMap, List.filterMap_map]
  refine List.filterMap_congr fun p _ => ?_
  cases hmention : p.mention <;> simp [bound?, hmention, Endpoint.bareId?]

theorem bound_sublist (parts : List Part) :
    ((parts.filterMap bound?).map Prod.snd).Sublist (parts.map (·.name)) := by
  induction parts with
  | nil => exact .slnil
  | cons p rest ih =>
    cases hbound : p.bound? with
    | none =>
      rw [List.filterMap_cons_none hbound]
      exact ih.cons p.name
    | some pair =>
      have hname : pair.2 = p.name := by
        obtain ⟨i, -, rfl⟩ := Option.map_eq_some_iff.mp hbound
        rfl
      rw [List.filterMap_cons_some hbound, List.map_cons, List.map_cons, hname]
      exact ih.cons_cons p.name

end Part

namespace Draft.Follows

variable {m : Moment} {store : Store} {names : Names} {keys : List EntityKey} {parts : List Part}
  {d : Draft} {key : EntityKey} {e : Entity} {name : String} {id : Int64}

section Batch

variable (h : Follows m store names none (keys.flatMap (Batch.mentioned store)) parts d)

include h

/-- The stored entities of the batch are those of the parts. -/
theorem closure_eq :
    Batch.closure store keys = (parts.map (·.mention)).filterMap Endpoint.key? := by
  rw [Batch.closure, h.mentions, filterMap_eraseDups]
  intro x y key hx hy
  cases x <;> cases y <;> simp_all [Endpoint.key?]

theorem bareIds_eq :
    Batch.bareIds store keys = (parts.map (·.mention)).filterMap Endpoint.bareId? := by
  rw [Batch.bareIds, h.mentions, filterMap_eraseDups]
  intro x y id hx hy
  cases x <;> cases y <;> simp_all [Endpoint.bareId?]

/-- A stored entity of the batch has a part under its variable. -/
theorem exists_part (hkey : key ∈ Batch.closure store keys) :
    ∃ p ∈ parts, p.mention = .entity key ∧ d.store.nameOf? key = some p.name := by
  rw [h.closure_eq] at hkey
  obtain ⟨x, hx, hxkey⟩ := List.mem_filterMap.mp hkey
  obtain ⟨p, hp, rfl⟩ := List.mem_map.mp hx
  have hmention : p.mention = .entity key := by
    cases hx : p.mention <;> simp_all [Endpoint.key?]
  exact ⟨p, hp, hmention, h.entity p hp key hmention⟩

/-- What a part stands for is a stored entity of the batch. -/
theorem mem_closure {p : Part} (hp : p ∈ parts) (hmention : p.mention = .entity key) :
    key ∈ Batch.closure store keys := by
  rw [h.closure_eq]
  exact List.mem_filterMap.mpr ⟨_, List.mem_map.mpr ⟨p, hp, hmention⟩, rfl⟩

end Batch

variable {opened : Option (EntityKey × String)} {seen : List Endpoint}
  (h : Follows m store names opened seen parts d)

include h

theorem map_returned :
    d.clauses.returned.map some =
      ((parts.map (·.mention)).filterMap Endpoint.key?).map d.store.nameOf? := by
  rw [h.returned]
  have hentity := h.entity
  clear h
  induction parts with
  | nil => rfl
  | cons p rest ih =>
    have hrest := ih fun q hq => hentity q (List.mem_cons_of_mem _ hq)
    rw [List.flatMap_cons, List.map_append, hrest]
    cases hmention : p.mention with
    | entity key =>
      have hname := hentity p (List.mem_cons_self ..) key hmention
      have hreturned : p.returned = [p.name] := by rw [Part.returned, hmention]
      simp only [List.map_cons, hmention, hreturned, List.filterMap_cons, Endpoint.key?, hname]
      rfl
    | id i =>
      have hreturned : p.returned = [] := by rw [Part.returned, hmention]
      simp only [List.map_cons, hmention, hreturned, List.filterMap_cons, Endpoint.key?]
      rfl

theorem asksOnce {part : Part} (hpart : part ∈ parts)
    (hid : part.mention.identity? store = some id) :
    Batch.AsksOnce d.clauses part.name id := by
  refine ⟨part.idParam m store, ?_, ?_⟩
  · rw [h.conditions, Part.filter_conditions h.distinct hpart, Part.conditions, hid]
    rfl
  · rw [Dict.get?_eq_some_iff, h.params.mem_iff, List.mem_flatMap]
    refine ⟨part, hpart, List.mem_append_right _ ?_⟩
    rw [hid]
    exact List.mem_singleton_self _

theorem asksNothing {part : Part} (hpart : part ∈ parts)
    (hid : part.mention.identity? store = none) :
    d.clauses.conditions.filter (·.name = part.name) = [] := by
  rw [h.conditions, Part.filter_conditions h.distinct hpart, Part.conditions, hid]
  rfl

end Draft.Follows

/-! ### The statement of a batch -/

namespace Batch

variable {m : Moment} {store : Store} {names : Names} {keys : List EntityKey}

/-- A draft with the parts of a batch writes the batch. -/
theorem writtenBy {parts : List Part} {d : Draft}
    (h : d.Follows m store names none (keys.flatMap (mentioned store)) parts) :
    WrittenBy m store names keys d.store d.clauses (parts.flatMap (Part.bindings m store))
      (parts.filterMap Part.bound?) := by
  have hparams : (parts.flatMap (Part.bindings m store)).map (fun b => (b.2, b.1.value)) =
      parts.flatMap (Part.params m store) := by
    rw [List.map_flatMap]
    exact List.flatMap_congr fun p _ => p.params_eq_map_bindings.symm
  constructor
  case returned => rw [h.map_returned, ← h.closure_eq]
  case nodup_returned =>
    rw [h.returned]
    exact h.distinct.sublist (Part.returned_sublist parts)
  case slots =>
    have hslots : (parts.flatMap (Part.bindings m store)).map Prod.fst =
        (parts.map (·.mention)).flatMap (Endpoint.slots m store) := by
      rw [List.map_flatMap, List.flatMap_map]
      exact List.flatMap_congr fun p _ => p.map_fst_bindings
    rw [hslots, slots, h.closure_eq, h.bareIds_eq]
    exact (Endpoint.perm_filterMap _).flatMap_right _
  case nodup_params =>
    have hnames : (parts.flatMap (Part.bindings m store)).map Prod.snd =
        (parts.flatMap (Part.params m store)).map Prod.fst := by
      rw [← hparams, List.map_map]
      rfl
    rw [hnames]
    exact (h.params.map Prod.fst).nodup_iff.mp d.clauses.params.nodup_names
  case params =>
    rw [hparams]
    exact h.params
  case bareIds => rw [Part.map_fst_bound, ← h.bareIds_eq]
  case nodup_bare => exact h.distinct.sublist (Part.bound_sublist parts)
  case fresh =>
    intro id name hmem
    obtain ⟨p, hp, hmention, rfl⟩ := Part.mention_of_mem_bound hmem
    exact (h.bare p hp id hmention).2
  case asks =>
    intro key hkey e name he hname id hid
    obtain ⟨p, hp, hmention, hpart⟩ := h.exists_part hkey
    obtain rfl := Option.some.inj (hname.symm.trans hpart)
    refine h.asksOnce hp ?_
    rw [hmention, Endpoint.identity?_of_same rfl he, hid]
  case asks_not =>
    intro key hkey e name he hname hid
    obtain ⟨p, hp, hmention, hpart⟩ := h.exists_part hkey
    obtain rfl := Option.some.inj (hname.symm.trans hpart)
    refine h.asksNothing hp ?_
    rw [hmention, Endpoint.identity?_of_same rfl he, hid]
  case asks_bare =>
    intro id name hmem
    obtain ⟨p, hp, hmention, rfl⟩ := Part.mention_of_mem_bound hmem
    exact h.asksOnce hp (by rw [hmention]; rfl)
  case asks_only =>
    intro c hc
    rw [h.conditions] at hc
    obtain ⟨p, hp, hcond⟩ := List.mem_flatMap.mp hc
    rw [Part.name_of_mem_conditions hcond]
    cases hmention : p.mention with
    | entity key => exact .inl ⟨key, h.mem_closure hp hmention, h.entity p hp key hmention⟩
    | id id => exact .inr ⟨id, Part.mem_bound hp hmention⟩

theorem composeSave_eq (hok : check store keys = .ok ()) :
    composeSave m store names keys =
      ⟨.ok (draft m store names keys).clauses.toStatement, (draft m store names keys).store,
        (draft m store names keys).names⟩ := by
  simp only [composeSave, hok]
  rfl

/-- The draft of an accepted batch writes the batch. From here on a save is known by its parts, and
how the draft came about is not looked at again. -/
theorem exists_writes (hnamed : store.NamedBy names) (hok : check store keys = .ok ()) :
    ∃ parts, (draft m store names keys).Writes m store names keys parts :=
  Draft.Writes.saveAll ⟨.start hnamed, .nothing⟩ (fun _ hkey => absurd hkey List.not_mem_nil)
    (accepted_of_check hok)

/-- The draft of an accepted batch consists of the parts that the batch mentions. -/
theorem exists_parts (hnamed : store.NamedBy names) (hok : check store keys = .ok ()) :
    ∃ parts, (draft m store names keys).Follows m store names none
      (keys.flatMap (mentioned store)) parts := by
  obtain ⟨parts, h⟩ := exists_writes (m := m) hnamed hok
  exact ⟨parts, h.follows⟩

end Batch

/-- **A save contains exactly its batch.** As long as the variables in the store were handed out by
these names to distinct entities, the statement of an accepted batch returns the variables of the
stored entities in it, asks once for every id that is known, gives each bare id one fresh variable,
and binds one parameter of its own to every value to carry. -/
theorem composeSave_writes (m : Moment) {store : Store} {names : Names} {keys : List EntityKey}
    (hnamed : store.NamedBy names) (hok : Batch.check store keys = .ok ()) :
    (composeSave m store names keys).outcome =
        .ok (Batch.draft m store names keys).clauses.toStatement ∧
      ∃ bindings bare, Batch.WrittenBy m store names keys (composeSave m store names keys).store
        (Batch.draft m store names keys).clauses bindings bare := by
  obtain ⟨parts, h⟩ := Batch.exists_parts (m := m) hnamed hok
  rw [Batch.composeSave_eq hok]
  exact ⟨rfl, _, _, Batch.writtenBy h⟩

/-! ### A relationship to a bare id -/

/-- A persisted person who has a variable and from whom a field was removed, and a relationship from
there to a bare id. -/
def friendStore : Store :=
  ⟨[{ (Entity.node "Person" ["Person"] (.empty true)).load [("name", .string "x")] with
      id := some 5
      deleted := ["age"]
      queryVariable := some "n0" },
    Entity.relationship "Knows" [] (some (.entity ⟨0⟩)) (some (.id 9)) (.empty true)]⟩

theorem friendStore_namedBy : friendStore.NamedBy { nodes := 1 } := by
  have hnames : ∀ key name, friendStore.nameOf? key = some name → key = ⟨0⟩ ∧ name = "n0" := by
    rintro ⟨_ | _ | n⟩ name hname
    · exact ⟨rfl, (Option.some.inj hname).symm⟩
    · cases hname
    · cases hname
  constructor
  · intro key name hname
    obtain ⟨-, rfl⟩ := hnames key name hname
    exact ⟨.node, 0, by decide, by decide⟩
  · intro key key' name hname hname'
    rw [(hnames key name hname).1, (hnames key' name hname').1]

theorem composeSave_writes_friend :
    friendStore.NamedBy { nodes := 1 } ∧ Batch.check friendStore [⟨1⟩] = .ok () ∧
      ∃ bindings bare, Batch.WrittenBy .epoch friendStore { nodes := 1 } [⟨1⟩]
        (composeSave .epoch friendStore { nodes := 1 } [⟨1⟩]).store
        (Batch.draft .epoch friendStore { nodes := 1 } [⟨1⟩]).clauses bindings bare :=
  ⟨friendStore_namedBy, rfl, (composeSave_writes .epoch friendStore_namedBy rfl).2⟩

end GraphMapping
