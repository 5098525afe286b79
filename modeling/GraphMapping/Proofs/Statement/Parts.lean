import GraphMapping.Proofs.Dict
import GraphMapping.Proofs.Statement.ParamNames
import GraphMapping.Statement.Save

/-!
# Parts of a save statement

A save statement consists of parts: one for each stored entity and each bare id that it mentions. A
part is known by what it mentions, the variable it has, and the number of its first parameter; what
it contributes to the clauses follows from these and the store the statement is composed from.

`Draft.Follows` says that the clauses of a draft are those of its parts and nothing else. It is
stated against the store before composing. Composing hands out variables only, so the data of the
entities can be read there.

## Main definitions

* `Endpoint.values`, `Endpoint.identity?`, `Endpoint.removed`: what there is to write about a stored
  entity or a bare id.
* `Part`: something that a statement mentions, with its variable and its parameters.
* `Part.returned`, `Part.conditions`, `Part.assigned`, `Part.params`: its share of the clauses.
* `Draft.Follows`: the draft consists of the given parts.

## Main results

* `Draft.bindFields_eq`, `Draft.update_eq`: what binding fields and updating add to a draft.
* `Draft.Follows.add`: a draft with one more part.
-/

namespace GraphMapping

/-! ### What is mentioned -/

namespace Endpoint

variable {m : Moment} {store store' : Store} {key : EntityKey} {e : Entity}

/-- The id of a node that is known by nothing else. -/
def bareId? : Endpoint → Option Int64
  | .entity _ => none
  | .id i => some i

/-- The fields to write, in order. -/
def values (m : Moment) (store : Store) : Endpoint → List (String × Value)
  | .entity key => (store.get? key).elim [] fun e => (e.data m .graph).toList
  | .id _ => []

/-- The id to ask for. -/
def identity? (store : Store) : Endpoint → Option Int64
  | .entity key => (store.get? key).bind (·.id)
  | .id i => some i

/-- The fields to set to null. -/
def removed (store : Store) : Endpoint → List String
  | .entity key => (store.get? key).elim [] (·.deleted)
  | .id _ => []

/-- The labels to write. -/
def labels (store : Store) : Endpoint → List String
  | .entity key => (store.get? key).elim [] (·.labels)
  | .id _ => []

/-- The type name that its parameters are counted under. -/
def typeName (store : Store) : Endpoint → String
  | .entity key => (store.get? key).elim "" (·.typeName)
  | .id _ => genericNodeName

/-- The data of a stored entity can be read before variables are handed out. -/
theorem exists_of_same (hsame : store'.releaseVariables = store.releaseVariables)
    (h : store'.get? key = some e) :
    ∃ e₀, store.get? key = some e₀ ∧ e₀.releaseVariable = e.releaseVariable := by
  have hread : store.releaseVariables.get? key = some e.releaseVariable := by
    rw [← hsame, Store.get?_releaseVariables, h]
    rfl
  rw [Store.get?_releaseVariables] at hread
  exact Option.map_eq_some_iff.mp hread

/-- What is read off an entity without its variable can be read before variables are handed out. -/
theorem elim_of_same {α : Type} {f : Entity → α} (hf : ∀ e, f e.releaseVariable = f e) (default : α)
    (hsame : store'.releaseVariables = store.releaseVariables) (h : store'.get? key = some e) :
    (store.get? key).elim default f = f e := by
  obtain ⟨e₀, he₀, heq⟩ := exists_of_same hsame h
  rw [he₀, Option.elim_some, ← hf e₀, heq, hf e]

theorem values_of_same (hsame : store'.releaseVariables = store.releaseVariables)
    (h : store'.get? key = some e) : values m store (.entity key) = (e.data m .graph).toList :=
  elim_of_same (fun _ => rfl) [] hsame h

theorem identity?_of_same (hsame : store'.releaseVariables = store.releaseVariables)
    (h : store'.get? key = some e) : identity? store (.entity key) = e.id := by
  obtain ⟨e₀, he₀, heq⟩ := exists_of_same hsame h
  have hid := congrArg Entity.id heq
  rw [identity?, he₀]
  exact hid

theorem removed_of_same (hsame : store'.releaseVariables = store.releaseVariables)
    (h : store'.get? key = some e) : removed store (.entity key) = e.deleted :=
  elim_of_same (fun _ => rfl) [] hsame h

theorem labels_of_same (hsame : store'.releaseVariables = store.releaseVariables)
    (h : store'.get? key = some e) : labels store (.entity key) = e.labels :=
  elim_of_same (fun _ => rfl) [] hsame h

theorem typeName_of_same (hsame : store'.releaseVariables = store.releaseVariables)
    (h : store'.get? key = some e) : typeName store (.entity key) = e.typeName :=
  elim_of_same (fun _ => rfl) "" hsame h

end Endpoint

/-! ### Numbered fields -/

/-- A field with its value and the parameter it is bound to. -/
structure BoundField where
  field : String
  value : Value
  param : String

/-- Fields with the parameters they are bound to, numbered from `n` on. -/
def numberFields (name : String) (n : Nat) : List (String × Value) → List BoundField
  | [] => []
  | (field, value) :: rest =>
    ⟨field, value, Names.paramName name field n⟩ :: numberFields name (n + 1) rest

theorem map_numberFields (name : String) (n : Nat) (fields : List (String × Value)) :
    (numberFields name n fields).map (fun b => (b.field, b.value)) = fields := by
  induction fields generalizing n with
  | nil => rfl
  | cons pair rest ih =>
    rw [numberFields, List.map_cons, ih]

theorem length_numberFields (name : String) (n : Nat) (fields : List (String × Value)) :
    (numberFields name n fields).length = fields.length := by
  have hlength := congrArg List.length (map_numberFields name n fields)
  rwa [List.length_map] at hlength

theorem param_of_mem_numberFields {name : String} {n : Nat} {fields : List (String × Value)}
    {b : BoundField} (h : b ∈ numberFields name n fields) :
    ∃ k, n ≤ k ∧ k < n + fields.length ∧ b.param = Names.paramName name b.field k := by
  induction fields generalizing n with
  | nil => exact absurd h List.not_mem_nil
  | cons pair rest ih =>
    rcases List.mem_cons.mp h with rfl | h
    · exact ⟨n, Nat.le_refl n, by simp, rfl⟩
    · obtain ⟨k, hle, hlt, hparam⟩ := ih h
      exact ⟨k, by omega, by rw [List.length_cons]; omega, hparam⟩

theorem nodup_numberFields {name : String} (h : Names.IsStem name) (n : Nat)
    (fields : List (String × Value)) : ((numberFields name n fields).map (·.param)).Nodup := by
  induction fields generalizing n with
  | nil => exact .nil
  | cons pair rest ih =>
    refine List.nodup_cons.mpr ⟨fun hmem => ?_, ih (n + 1)⟩
    obtain ⟨b, hb, heq⟩ := List.mem_map.mp hmem
    obtain ⟨k, hle, -, hparam⟩ := param_of_mem_numberFields hb
    exact Names.paramName_ne_of_number h (Nat.ne_of_gt hle) _ _ (hparam.symm.trans heq)

/-! ### Parts -/

/-- What differs from all others comes last without a repetition. It is how parts are told apart, by
their variables and by what they mention. -/
theorem nodup_map_concat {α β : Type} {f : α → β} {xs : List α} {x : α} (h : (xs.map f).Nodup)
    (hnew : ∀ y ∈ xs, f y ≠ f x) : ((xs ++ [x]).map f).Nodup := by
  rw [List.map_append, List.map_singleton, ← List.concat_eq_append]
  refine h.concat fun hmem => ?_
  obtain ⟨y, hy, heq⟩ := List.mem_map.mp hmem
  exact hnew y hy heq

/-- Something that a statement mentions, with its variable and the number of its first parameter. -/
structure Part where
  mention : Endpoint
  name : String
  first : Nat

namespace Part

variable (m : Moment) (store : Store) (part : Part)

/-- The fields with their parameters. -/
def fields : List BoundField :=
  numberFields part.name part.first (part.mention.values m store)

/-- The parameter that the id is bound to. -/
def idParam : String :=
  Names.paramName part.name "id" (part.first + (part.mention.values m store).length)

/-- The stored entity has its variable returned. -/
def returned : List String :=
  match part.mention with
  | .entity _ => [part.name]
  | .id _ => []

/-- The id is asked for when there is one. -/
def conditions : List IdCondition :=
  (part.mention.identity? store).toList.map fun _ => ⟨part.name, part.idParam m store⟩

/-- A persisted entity is brought to its current data. -/
def assigned : List Assignment :=
  if (part.mention.identity? store).isNone then []
  else
    (part.fields m store).map (fun b => ⟨part.name, b.field, some b.param⟩) ++
      (part.mention.removed store).map (⟨part.name, ·, none⟩)

/-- The parameters with their values. -/
def params : List (String × Value) :=
  (part.fields m store).map (fun b => (b.param, b.value)) ++
    (part.mention.identity? store).toList.map fun id => (part.idParam m store, .integer id)

/-- The fields with their parameters, as they stand inside a pattern. -/
def fieldParams : List FieldParam :=
  (part.fields m store).map fun b => (b.field, b.param)

/-- The node spelled out, as a new one is where it is first mentioned. -/
def spelled : NodePattern := ⟨part.name, part.mention.labels store, part.fieldParams m store⟩

/-- The node where it is first mentioned as an end of a relationship: a known one is its variable. -/
def asEnd : NodePattern :=
  if (part.mention.identity? store).isNone then part.spelled m store else ⟨part.name, [], []⟩

/-- A known node has to be matched before it can be mentioned. -/
def matched : List Pattern :=
  if (part.mention.identity? store).isNone then [] else [.node ⟨part.name, [], []⟩]

/-- The variable of a bare id. -/
def bound? : Option (Int64 × String) :=
  part.mention.bareId?.map (·, part.name)

variable {m store part}

theorem mention_of_mem_bound {parts : List Part} {id : Int64} {name : String}
    (h : (id, name) ∈ parts.filterMap bound?) :
    ∃ p ∈ parts, p.mention = .id id ∧ p.name = name := by
  obtain ⟨p, hp, hbound⟩ := List.mem_filterMap.mp h
  obtain ⟨i, hi, heq⟩ := Option.map_eq_some_iff.mp hbound
  obtain ⟨rfl, rfl⟩ := Prod.mk.inj heq
  refine ⟨p, hp, ?_, rfl⟩
  cases hmention : p.mention <;> simp_all [Endpoint.bareId?]

theorem mem_bound {parts : List Part} {p : Part} {id : Int64} (hp : p ∈ parts)
    (hmention : p.mention = .id id) : (id, p.name) ∈ parts.filterMap bound? := by
  refine List.mem_filterMap.mpr ⟨p, hp, ?_⟩
  rw [bound?, hmention]
  rfl

section Stored

variable {key : EntityKey} {e : Entity} {id : Int64} (hmention : part.mention = .entity key)
  (he : store.get? key = some e)

include hmention he

theorem map_fields :
    (part.fields m store).map (fun b => (b.field, b.value)) = (e.data m .graph).toList := by
  rw [fields, map_numberFields, hmention, Endpoint.values_of_same rfl he]

/-- The share of a persisted entity in the assignments: its fields, and null for what was removed.
-/
theorem assigned_eq (hid : e.id = some id) : part.assigned m store =
    (part.fields m store).map (fun b => ⟨part.name, b.field, some b.param⟩) ++
      e.deleted.map (⟨part.name, ·, none⟩) := by
  rw [assigned, hmention, Endpoint.identity?_of_same rfl he, Endpoint.removed_of_same rfl he, hid]
  rfl

end Stored

theorem name_of_mem_assigned {a : Assignment} (h : a ∈ part.assigned m store) :
    a.name = part.name := by
  rw [assigned] at h
  split at h
  · exact absurd h List.not_mem_nil
  · rcases List.mem_append.mp h with h | h
    · obtain ⟨b, -, rfl⟩ := List.mem_map.mp h
      rfl
    · obtain ⟨field, -, rfl⟩ := List.mem_map.mp h
      rfl

theorem name_of_mem_conditions {c : IdCondition} (h : c ∈ part.conditions m store) :
    c.name = part.name := by
  obtain ⟨i, -, rfl⟩ := List.mem_map.mp h
  rfl

theorem length_params : (part.params m store).length =
    (part.mention.values m store).length + (part.mention.identity? store).toList.length := by
  rw [params, List.length_append, List.length_map, List.length_map, fields, length_numberFields]

/-- The parameters of a part are spelled after its variable, and numbered from the first on. -/
theorem param_of_mem {pair : String × Value} (h : pair ∈ part.params m store) :
    ∃ field n, part.first ≤ n ∧ n < part.first + (part.params m store).length ∧
      pair.1 = Names.paramName part.name field n := by
  rw [length_params]
  rcases List.mem_append.mp h with h | h
  · obtain ⟨b, hb, rfl⟩ := List.mem_map.mp h
    obtain ⟨k, hle, hlt, hparam⟩ := param_of_mem_numberFields hb
    exact ⟨b.field, k, hle, by omega, hparam⟩
  · obtain ⟨id, hid, rfl⟩ := List.mem_map.mp h
    refine ⟨"id", _, Nat.le_add_right .., ?_, rfl⟩
    have hpos := List.length_pos_of_mem hid
    omega

theorem nodup_params (h : Names.IsStem part.name) :
    ((part.params m store).map Prod.fst).Nodup := by
  have hfields : ((part.fields m store).map fun b => (b.param, b.value)).map Prod.fst =
      (part.fields m store).map (·.param) := by
    simp [Function.comp_def]
  rw [params, List.map_append, hfields, List.map_map]
  refine List.nodup_append.mpr ⟨nodup_numberFields h _ _, ?_, ?_⟩
  · cases part.mention.identity? store <;> simp
  · rintro a ha b hb rfl
    obtain ⟨field, hfield, rfl⟩ := List.mem_map.mp ha
    obtain ⟨id, -, heq⟩ := List.mem_map.mp hb
    obtain ⟨k, -, hlt, hparam⟩ := param_of_mem_numberFields hfield
    exact Names.paramName_ne_of_number h (Nat.ne_of_gt hlt) "id" field.field (heq.trans hparam)

end Part

/-! ### What drafting adds -/

/-- Clauses with the share of one more part, apart from what is returned. -/
def Clauses.addPart (clauses : Clauses) (m : Moment) (store : Store) (part : Part) : Clauses :=
  { clauses with
    assigned := clauses.assigned ++ part.assigned m store
    conditions := clauses.conditions ++ part.conditions m store
    params := clauses.params.insertAll (part.params m store) }

namespace Draft

variable {m : Moment} {store : Store} {key : EntityKey} {e : Entity} {name : String}

/-- A draft with more parameters bound, under the names that were handed out for them. -/
def bindAll (d : Draft) (names : Names) (pairs : List (String × Value)) : Draft :=
  { d with names, clauses := { d.clauses with params := d.clauses.params.insertAll pairs } }

/-- Binding fields numbers their parameters from the next number of the type on. -/
theorem bindFields_eq (d : Draft) (hname : e.queryVariable = some name) {n : Nat}
    (hn : d.names.paramCount e.typeName = n) (fields : List (String × Value)) :
    ∃ names, d.names.HandsOutParams e.typeName fields.length names ∧
      d.bindFields e fields =
        ((numberFields name n fields).map (fun b => (b.field, b.param)),
          d.bindAll names ((numberFields name n fields).map fun b => (b.param, b.value))) := by
  induction fields generalizing d n with
  | nil => exact ⟨d.names, .none d.names e.typeName, rfl⟩
  | cons pair rest ih =>
    obtain ⟨field, value⟩ := pair
    have hparam : d.names.paramFor e field = d.names.param name e.typeName field := by
      rw [Names.paramFor, hname]
      rfl
    obtain ⟨param, names₁, hnext⟩ : ∃ param names₁,
        d.names.param name e.typeName field = (param, names₁) := ⟨_, _, rfl⟩
    have hfst : Names.paramName name field n = param := by
      rw [← hn]
      exact congrArg Prod.fst hnext
    have hnames₁ : d.names.HandsOutParams e.typeName 1 names₁ := by
      have hone := d.names.handsOutParams_param name e.typeName field
      rwa [hnext] at hone
    have hn₁ : names₁.paramCount e.typeName = n + 1 := by
      rw [hnames₁.paramCount_self, hn]
    obtain ⟨names, hnames, heq⟩ := ih ({ d with names := names₁ }.bindParam param value) hn₁
    refine ⟨names, ?_, ?_⟩
    · rw [List.length_cons, Nat.add_comm]
      exact hnames₁.trans hnames
    · rw [bindFields, hparam, hnext]
      simp only [heq]
      rw [numberFields, List.map_cons, List.map_cons, hfst]
      rfl

section Part

variable {store₀ : Store} {d : Draft} (hsame : d.store.releaseVariables = store₀.releaseVariables)
  (he : d.store.get? key = some e) (hname : e.queryVariable = some name)

include hsame he hname

/-- A new entity contributes its fields. -/
theorem bindNew_eq (hid : e.id = none) :
    let part : Part := ⟨.entity key, name, d.names.paramCount e.typeName⟩
    ∃ names, d.names.HandsOutParams e.typeName (part.params m store₀).length names ∧
      d.bindFields e (e.data m .graph).toList =
        (part.fieldParams m store₀,
          { d with names, clauses := d.clauses.addPart m store₀ part }) := by
  intro part
  obtain ⟨names, hnames, heq⟩ := d.bindFields_eq hname rfl (e.data m .graph).toList
  have hidentity : part.mention.identity? store₀ = none :=
    (Endpoint.identity?_of_same hsame he).trans hid
  have hvalues : part.mention.values m store₀ = (e.data m .graph).toList :=
    Endpoint.values_of_same hsame he
  refine ⟨names, ?_, ?_⟩
  · rwa [Part.length_params, hidentity, hvalues]
  · rw [heq]
    simp [bindAll, Clauses.addPart, Part.assigned, Part.conditions, Part.params, Part.fieldParams,
      Part.fields, hidentity, hvalues, part]

/-- A persisted entity contributes its fields, the removed ones and its id. -/
theorem update_eq {id : Int64} (hid : e.id = some id) :
    let part : Part := ⟨.entity key, name, d.names.paramCount e.typeName⟩
    ∃ names, d.names.HandsOutParams e.typeName (part.params m store₀).length names ∧
      d.update m name e id = { d with names, clauses := d.clauses.addPart m store₀ part } := by
  intro part
  obtain ⟨names₁, hnames₁, heq⟩ := d.bindFields_eq hname rfl (e.data m .graph).toList
  have hparam : names₁.paramFor e "id" = names₁.param name e.typeName "id" := by
    rw [Names.paramFor, hname]
    rfl
  have hidentity : part.mention.identity? store₀ = some id :=
    (Endpoint.identity?_of_same hsame he).trans hid
  have hvalues : part.mention.values m store₀ = (e.data m .graph).toList :=
    Endpoint.values_of_same hsame he
  have hremoved : part.mention.removed store₀ = e.deleted := Endpoint.removed_of_same hsame he
  refine ⟨(names₁.param name e.typeName "id").2, ?_, ?_⟩
  · rw [Part.length_params, hidentity, hvalues]
    exact hnames₁.trans (names₁.handsOutParams_param name e.typeName "id")
  · rw [update, heq]
    simp only [bindAll, hparam, Names.param_eq, hnames₁.paramCount_self]
    simp only [askId, bindParam, Clauses.addPart, Part.assigned, Part.conditions, Part.params,
      Part.fields, Part.idParam, hidentity, hvalues, hremoved, Dict.insertAll_append, List.map_map,
      Option.isNone_some, Option.toList_some]
    rfl

end Part

/-- A draft with the share of one more part and with more patterns. -/
def withPart (d : Draft) (m : Moment) (store : Store) (part : Part) (names : Names)
    (matched created : List Pattern) : Draft :=
  { d with
    names
    boundIds := d.boundIds ++ part.bound?.toList
    clauses := { d.clauses.addPart m store part with
      matched := d.clauses.matched ++ matched
      created := d.clauses.created ++ created
      returned := d.clauses.returned ++ part.returned } }

/-! ### Drafts of parts -/

/-- The draft consists of the given parts. They are what is in `seen`, each once, in order. An
entity that is `opened` has its place already, under its variable, but its part is not complete. -/
structure Follows (m : Moment) (store₀ : Store) (names₀ : Names)
    (opened : Option (EntityKey × String)) (seen : List Endpoint) (parts : List Part)
    (d : Draft) : Prop where
  naming : Naming store₀ names₀ d.store d.names
  named : d.store.NamedBy d.names
  mentions : parts.map (·.mention) = seen.eraseDups
  /-- A stored entity is written under its own variable. -/
  entity : ∀ p ∈ parts, ∀ key, p.mention = .entity key → d.store.nameOf? key = some p.name
  /-- A bare id is written under a fresh variable that no entity has. -/
  bare : ∀ p ∈ parts, ∀ id, p.mention = .id id →
    d.names.Issued p.name ∧ ¬ names₀.Issued p.name ∧ ∀ key, d.store.nameOf? key ≠ some p.name
  distinct : (parts.map (·.name)).Nodup
  opening : ∀ key name, opened = some (key, name) → d.store.nameOf? key = some name
  placed : ∀ name, name ∈ d.placed ↔
    name ∈ parts.flatMap Part.returned ∨ opened.map Prod.snd = some name
  boundIds : d.boundIds = parts.filterMap Part.bound?
  returned : d.clauses.returned = parts.flatMap Part.returned
  conditions : d.clauses.conditions = parts.flatMap (Part.conditions m store₀)
  assigned : d.clauses.assigned = parts.flatMap (Part.assigned m store₀)
  params : d.clauses.params.toList.Perm (parts.flatMap (Part.params m store₀))
  counted : ∀ typeName, names₀.paramCount typeName ≤ d.names.paramCount typeName
  /-- The parameters of a part have numbers of their own. -/
  numbered : ∀ p ∈ parts, names₀.paramCount (p.mention.typeName store₀) ≤ p.first ∧
    p.first + (p.params m store₀).length ≤ d.names.paramCount (p.mention.typeName store₀)

namespace Follows

variable {store₀ : Store} {names₀ : Names} {opened opened' : Option (EntityKey × String)}
  {seen : List Endpoint} {parts : List Part} {d : Draft}

theorem start (hnamed : store.NamedBy names₀) :
    Follows m store names₀ none [] [] { store, names := names₀ } where
  naming := .refl store names₀
  named := hnamed
  mentions := rfl
  entity p hp := absurd hp List.not_mem_nil
  bare p hp := absurd hp List.not_mem_nil
  distinct := .nil
  opening key name hname := by simp at hname
  placed name := by simp
  boundIds := rfl
  returned := rfl
  conditions := rfl
  assigned := rfl
  params := .refl _
  counted _ := Nat.le_refl _
  numbered p hp := absurd hp List.not_mem_nil

theorem issued (h : Follows m store₀ names₀ opened seen parts d) {p : Part} (hp : p ∈ parts) :
    d.names.Issued p.name := by
  cases hmention : p.mention with
  | entity key => exact h.named.issued key p.name (h.entity p hp key hmention)
  | id id => exact (h.bare p hp id hmention).1

theorem mem_mentions (h : Follows m store₀ names₀ opened seen parts d) {x : Endpoint} :
    x ∈ seen ↔ ∃ p ∈ parts, p.mention = x := by
  rw [← List.mem_eraseDups, ← h.mentions, List.mem_map]

/-- The variable of a stored entity is returned when the entity is mentioned. -/
theorem mem_returned (h : Follows m store₀ names₀ opened seen parts d)
    (hname : d.store.nameOf? key = some name) :
    name ∈ parts.flatMap Part.returned ↔ Endpoint.entity key ∈ seen := by
  rw [h.mem_mentions, List.mem_flatMap]
  constructor
  · rintro ⟨p, hp, hreturned⟩
    refine ⟨p, hp, ?_⟩
    cases hmention : p.mention with
    | entity other =>
      obtain rfl : name = p.name := by simpa [Part.returned, hmention] using hreturned
      rw [h.named.distinct key other p.name hname (h.entity p hp other hmention)]
    | id id => simp [Part.returned, hmention] at hreturned
  · rintro ⟨p, hp, hmention⟩
    refine ⟨p, hp, ?_⟩
    obtain rfl := Option.some.inj ((h.entity p hp key hmention).symm.trans hname)
    simp [Part.returned, hmention]

/-- A variable that has been handed out is the part's own only if it is its entity's. -/
theorem name_ne (h : Follows m store₀ names₀ opened seen parts d)
    (hname : d.store.nameOf? key = some name) (hnew : Endpoint.entity key ∉ seen) {p : Part}
    (hp : p ∈ parts) : p.name ≠ name := by
  rintro rfl
  cases hmention : p.mention with
  | entity other =>
    have hkey := h.named.distinct key other p.name hname (h.entity p hp other hmention)
    exact hnew (h.mem_mentions.mpr ⟨p, hp, hkey ▸ hmention⟩)
  | id id => exact (h.bare p hp id hmention).2.2 key hname

theorem rename (h : Follows m store₀ names₀ opened seen parts d) {store : Store} {names : Names}
    (hnaming : Naming d.store d.names store names) (hnamed : store.NamedBy names)
    (hcount : ∀ typeName, d.names.paramCount typeName ≤ names.paramCount typeName) :
    Follows m store₀ names₀ opened seen parts { d with store, names } where
  naming := h.naming.trans hnaming
  named := hnamed
  mentions := h.mentions
  entity p hp key hmention := hnaming.keeps key p.name (h.entity p hp key hmention)
  bare p hp id hmention := by
    obtain ⟨hissued, hfresh, hne⟩ := h.bare p hp id hmention
    exact ⟨hnaming.issued p.name hissued, hfresh, hnaming.nameOf?_ne hissued hne⟩
  distinct := h.distinct
  opening key name hopened := hnaming.keeps key name (h.opening key name hopened)
  placed := h.placed
  boundIds := h.boundIds
  returned := h.returned
  conditions := h.conditions
  assigned := h.assigned
  params := h.params
  counted typeName := (h.counted typeName).trans (hcount typeName)
  numbered p hp := ⟨(h.numbered p hp).1, (h.numbered p hp).2.trans (hcount _)⟩

/-- What has been seen may be seen again. Parts are for first mentions, and a later one adds to the
list of mentions only. -/
theorem again (h : Follows m store₀ names₀ opened seen parts d) {xs : List Endpoint}
    (hxs : ∀ x ∈ xs, x ∈ seen) : Follows m store₀ names₀ opened (seen ++ xs) parts d := by
  have hseen : (seen ++ xs).eraseDups = seen.eraseDups := by
    have hnone : xs.removeAll seen = [] := by
      rw [List.removeAll, List.filter_eq_nil_iff]
      intro x hx
      simpa using hxs x hx
    rw [List.eraseDups_append, hnone, List.eraseDups_nil, List.append_nil]
  exact { h with mentions := h.mentions.trans hseen.symm }

section Concat

variable {part : Part} {names : Names}

/-- What is mentioned for the first time comes last in the order of first mentions. -/
theorem mentions_concat (h : Follows m store₀ names₀ opened seen parts d)
    (hnew : part.mention ∉ seen) :
    (parts ++ [part]).map (·.mention) = (seen ++ [part.mention]).eraseDups := by
  have hone : [part.mention].removeAll seen = [part.mention] := by
    rw [List.removeAll, List.filter_eq_self]
    intro x hx
    rw [List.mem_singleton.mp hx]
    simpa using hnew
  rw [List.map_append, h.mentions, List.eraseDups_append, hone]
  rfl

/-- A part under a variable of its own has parameters that no other part has, because a parameter is
spelled after the variable of its part. So all of them are added, and none is overwritten. -/
theorem params_insertAll (h : Follows m store₀ names₀ opened seen parts d)
    (hissued : d.names.Issued part.name) (hfresh : ∀ p ∈ parts, p.name ≠ part.name) :
    (d.clauses.params.insertAll (part.params m store₀)).toList.Perm
      ((parts ++ [part]).flatMap (Part.params m store₀)) := by
  rw [List.flatMap_append, List.flatMap_singleton]
  refine (Dict.toList_insertAll_perm (Part.nodup_params hissued.isStem) ?_).trans
    (h.params.append_right _)
  intro pair hpair entry hentry heq
  obtain ⟨p, hp, hpentry⟩ := List.mem_flatMap.mp (h.params.mem_iff.mp hentry)
  obtain ⟨field, n, -, -, hparam⟩ := Part.param_of_mem hpair
  obtain ⟨field', n', -, -, hparam'⟩ := Part.param_of_mem hpentry
  exact Names.paramName_ne_of_issued (h.issued hp) hissued (hfresh p hp) field' field n' n
    (hparam'.symm.trans (heq.trans hparam))

/-- A part that is numbered from the next number on ends where the numbers handed out for it end. -/
theorem numbered_concat (h : Follows m store₀ names₀ opened seen parts d)
    (hfirst : part.first = d.names.paramCount (part.mention.typeName store₀))
    (hnames : d.names.HandsOutParams (part.mention.typeName store₀) (part.params m store₀).length
      names) :
    ∀ p ∈ parts ++ [part], names₀.paramCount (p.mention.typeName store₀) ≤ p.first ∧
      p.first + (p.params m store₀).length ≤ names.paramCount (p.mention.typeName store₀) := by
  refine List.forall_mem_append.mpr ⟨fun p hp => ?_, List.forall_mem_singleton.mpr ?_⟩
  · obtain ⟨hlow, hhigh⟩ := h.numbered p hp
    exact ⟨hlow, hhigh.trans (hnames.le _)⟩
  · rw [hfirst]
    exact ⟨h.counted _, hnames.paramCount_self.ge⟩

/-- The variable of a bare id stays one that no stored entity has. -/
theorem bare_concat (h : Follows m store₀ names₀ opened seen parts d)
    (hcount : ∀ kind, names.count kind = d.names.count kind)
    (hbare : ∀ id, part.mention = .id id → d.names.Issued part.name ∧ ¬ names₀.Issued part.name ∧
      ∀ key, d.store.nameOf? key ≠ some part.name) :
    ∀ p ∈ parts ++ [part], ∀ id, p.mention = .id id →
      names.Issued p.name ∧ ¬ names₀.Issued p.name ∧ ∀ key, d.store.nameOf? key ≠ some p.name := by
  have hissued : ∀ {name}, d.names.Issued name → names.Issued name := fun h => h.congr hcount
  refine List.forall_mem_append.mpr ⟨fun p hp id hmention => ?_, List.forall_mem_singleton.mpr ?_⟩
  · exact (h.bare p hp id hmention).imp_left hissued
  · exact fun id hmention => (hbare id hmention).imp_left hissued

end Concat

/-- The draft with one more part: its variable is handed out and new to the draft, and its share is
added to every clause. -/
theorem withPart (h : Follows m store₀ names₀ opened seen parts d) (part : Part) {names : Names}
    {matched created : List Pattern} (hnew : part.mention ∉ seen)
    (hentity : ∀ key, part.mention = .entity key → d.store.nameOf? key = some part.name)
    (hbare : ∀ id, part.mention = .id id → d.names.Issued part.name ∧ ¬ names₀.Issued part.name ∧
      ∀ key, d.store.nameOf? key ≠ some part.name)
    (hfresh : ∀ p ∈ parts, p.name ≠ part.name)
    (hfirst : part.first = d.names.paramCount (part.mention.typeName store₀))
    (hnames : d.names.HandsOutParams (part.mention.typeName store₀) (part.params m store₀).length
      names)
    {placed : List String} (hplaced : ∀ name, name ∈ placed ↔
      name ∈ parts.flatMap Part.returned ++ part.returned ∨ opened'.map Prod.snd = some name)
    (hopened : ∀ key name, opened' = some (key, name) → opened = some (key, name)) :
    Follows m store₀ names₀ opened' (seen ++ [part.mention]) (parts ++ [part])
      (Draft.withPart { d with placed } m store₀ part names matched created) := by
  have hissued : d.names.Issued part.name := by
    cases hmention : part.mention with
    | entity key => exact h.named.issued key part.name (hentity key hmention)
    | id id => exact (hbare id hmention).1
  -- a clause is the shares of the parts one after another
  have hshare : ∀ {α : Type} {f : Part → List α} {clause : List α}, clause = parts.flatMap f →
      clause ++ f part = (parts ++ [part]).flatMap f := by
    rintro α f clause rfl
    rw [List.flatMap_append, List.flatMap_singleton]
  constructor
  case naming => exact h.naming.trans (.of_count d.store hnames.count)
  case named => exact h.named.mono fun name hname => hname.congr hnames.count
  case mentions => exact h.mentions_concat hnew
  case entity => exact List.forall_mem_append.mpr ⟨h.entity, List.forall_mem_singleton.mpr hentity⟩
  case bare => exact h.bare_concat hnames.count hbare
  case distinct => exact nodup_map_concat h.distinct hfresh
  case opening => exact fun key name hopened' => h.opening key name (hopened key name hopened')
  case placed => exact fun name => hshare (f := Part.returned) rfl ▸ hplaced name
  case boundIds =>
    rw [List.filterMap_append]
    cases hpart : part.bound? <;> simp [Draft.withPart, h.boundIds, hpart]
  case returned => exact hshare h.returned
  case conditions => exact hshare h.conditions
  case assigned => exact hshare h.assigned
  case params => exact h.params_insertAll hissued hfresh
  case counted => exact fun typeName => (h.counted typeName).trans (hnames.le typeName)
  case numbered => exact h.numbered_concat hfirst hnames

/-- The draft with a part for a stored entity that has its variable. -/
theorem withEntity (h : Follows m store₀ names₀ opened seen parts d) {names : Names}
    {matched created : List Pattern} (he : d.store.get? key = some e)
    (hname : e.queryVariable = some name) (hnew : Endpoint.entity key ∉ seen)
    (hnames : d.names.HandsOutParams e.typeName
      (Part.params m store₀ ⟨.entity key, name, d.names.paramCount e.typeName⟩).length names)
    {placed : List String} (hplaced : ∀ name', name' ∈ placed ↔
      name' ∈ parts.flatMap Part.returned ++ [name] ∨ opened'.map Prod.snd = some name')
    (hopened : ∀ key name, opened' = some (key, name) → opened = some (key, name)) :
    Follows m store₀ names₀ opened' (seen ++ [.entity key])
      (parts ++ [⟨.entity key, name, d.names.paramCount e.typeName⟩])
      (Draft.withPart { d with placed } m store₀ ⟨.entity key, name, d.names.paramCount e.typeName⟩
        names matched created) := by
  have hstored : d.store.nameOf? key = some name := (Store.nameOf?_of_get? he).trans hname
  have htype := Endpoint.typeName_of_same h.naming.same he
  refine h.withPart ⟨.entity key, name, d.names.paramCount e.typeName⟩ hnew ?_ ?_
    (fun p hp => h.name_ne hstored hnew hp) (htype ▸ rfl) (htype.symm ▸ hnames) hplaced hopened
  · intro other hother
    cases hother
    exact hstored
  · intro id hother
    cases hother

end Follows

end Draft

end GraphMapping
