import GraphMapping.Proofs.Statement.SaveBatch
import GraphMapping.Proofs.Statement.Shapes
import GraphMapping.Proofs.Statement.TraversalText
import GraphMapping.Statement.Delete
import GraphMapping.Statement.Lookup

/-!
# Values do not reach the text

The text of a statement tells nothing about values. Composed from two stores of one shape it is the
same text, it returns the same variables and has parameters of the same names; only what the
parameters are bound to differs. When composing is refused, it is refused for the same reason, which
is told without values as well.

## Main definitions

* `Statement.shape`: what a statement shows apart from values.
* `Composed.SameShape`: outcomes that differ in values only.
* `Traversal.SameShape`: traversals that differ in values and row counts only.

## Main results

* `composed_of_sameShape`: composing keeps values out of the text.
-/

namespace GraphMapping

/-! ### Outcomes -/

/-- The text, the names of the parameters and the returned variables, without any values. -/
def Statement.shape (statement : Statement) : String × List String × List String :=
  (statement.text, statement.params.names, statement.returns)

/-- Outcomes that differ in values only: they show the same or fail for the same reason, the same
names were handed out, and the stores still have one shape. -/
structure Composed.SameShape {α β : Type} (shape : α → β) (m m' : Moment) (c c' : Composed α) :
    Prop where
  outcome : c'.outcome.map shape = c.outcome.map shape
  names : c'.names = c.names
  store : c.store.SameShape m m' c'.store

/-- What the parameters are bound to is not seen. -/
theorem Clauses.shape_toStatement {clauses clauses' : Clauses}
    (h : clauses' = { clauses with params := clauses'.params })
    (hparams : clauses'.params.names = clauses.params.names) :
    clauses'.toStatement.shape = clauses.toStatement.shape := by
  have htext : clauses'.write = clauses.write := by rw [h]; rfl
  have hreturned : clauses'.returned = clauses.returned := by rw [h]
  simp only [Statement.shape, toStatement, htext, hparams, hreturned]

namespace Composed.SameShape

variable {α β : Type} {shape : α → β} {m m' : Moment} {store store' : Store} {names : Names}

theorem of_ok {s s' : α} (hshape : shape s' = shape s) (hstore : store.SameShape m m' store') :
    SameShape shape m m' ⟨.ok s, store, names⟩ ⟨.ok s', store', names⟩ :=
  ⟨congrArg Except.ok hshape, rfl, hstore⟩

theorem of_error (err : MapperError) (hstore : store.SameShape m m' store') :
    SameShape shape m m' ⟨.error err, store, names⟩ ⟨.error err, store', names⟩ :=
  ⟨rfl, rfl, hstore⟩

end Composed.SameShape

variable {R : Int64 → Int64 → Prop} {m m' : Moment} {store store' : Store}

/-! ### Saving -/

namespace Batch

theorem checkEnd_eq (h : store.Corresponds R m m' store') {e e' : Entity}
    (he : e.Corresponds R m m' e') (key : EntityKey) (role : EndpointRole) :
    checkEnd store' key e' role = checkEnd store key e role := by
  rw [checkEnd, checkEnd, he.typeName]
  rcases Option.rel_cases (he.ends role) with ⟨hnone, hnone'⟩ | ⟨x, x', hx, hx', hend⟩
  · rw [hnone, hnone']
  · rw [hx, hx']
    cases hend with
    | id hi => rfl
    | entity other =>
      rcases h.cases other with ⟨hnone, hnone'⟩ | ⟨node, node', hnode, hnode', hsame⟩
      · simp only [hnone, hnone']
      · simp only [hnode, hnode', hsame.isNode]

theorem checkKey_eq (h : store.Corresponds R m m' store') (key : EntityKey) :
    checkKey store' key = checkKey store key := by
  rw [checkKey, checkKey]
  rcases h.cases key with ⟨hnone, hnone'⟩ | ⟨e, e', he, he', hentity⟩
  · rw [hnone, hnone']
  · simp only [he, he', hentity.isNode, checkEnd_eq h hentity]

/-- A batch is refused for the same reason. A check looks at the kinds of entities and at their
ends, and not at ids or properties. -/
theorem check_eq (h : store.Corresponds R m m' store') (keys : List EntityKey) :
    check store' keys = check store keys := by
  rw [check, check, funext (checkKey_eq h)]

end Batch

theorem composeSave_sameShape (h : store.Corresponds R m m' store') (hR : OneToOne R)
    (names : Names) (keys : List EntityKey) :
    Composed.SameShape Statement.shape m m' (composeSave m store names keys)
      (composeSave m' store' names keys) := by
  have hcheck := Batch.check_eq h keys
  cases hok : Batch.check store keys with
  | error err =>
    rw [hok] at hcheck
    simp only [composeSave, hok, hcheck]
    exact .of_error _ (h.sameShape hR)
  | ok u =>
    rw [hok] at hcheck
    have hstart : Draft.Alike R m m' { store, names } { store := store', names } :=
      ⟨h, rfl, rfl, rfl, rfl, .nil⟩
    have hdraft : (Batch.draft m store names keys).Alike R m m'
        (Batch.draft m' store' names keys) :=
      hstart.saveAll hR keys
    rw [Batch.composeSave_eq hok, Batch.composeSave_eq hcheck]
    rw [hdraft.names]
    exact .of_ok (Clauses.shape_toStatement hdraft.clauses hdraft.params)
      (hdraft.store.sameShape hR)

/-! ### Deleting -/

/-- The targets and the names of the parameters. -/
def Deletion.shape (deletion : Deletion) : List (Pattern × IdCondition) × Bool × List String :=
  (deletion.targets, deletion.hasNode, deletion.params.names)

namespace Deletion

variable {deletion deletion' : Deletion}

theorem add_shape (h : deletion'.shape = deletion.shape) {e e' : Entity}
    (he : e.SameShape m m' e') (name param : String) (id id' : Int64) :
    (deletion'.add name param e' id').shape = (deletion.add name param e id).shape := by
  simp only [shape, Prod.mk.injEq] at h
  obtain ⟨htargets, hnode, hparams⟩ := h
  simp only [add, shape, htargets, hnode, he.isNode, he.labels,
    Dict.names_insert_congr hparams param (.integer id) (.integer id')]

theorem toStatement?_shape (h : deletion'.shape = deletion.shape) :
    deletion'.toStatement?.map Statement.shape = deletion.toStatement?.map Statement.shape := by
  simp only [shape, Prod.mk.injEq] at h
  obtain ⟨htargets, hnode, hparams⟩ := h
  rw [toStatement?, toStatement?, htargets]
  split
  · rfl
  · simp only [Option.map_some, Statement.shape, write, htargets, hnode, hparams]

end Deletion

theorem collectDeletion_sameShape (h : store.Corresponds R m m' store') (hR : OneToOne R)
    (names : Names) {deletion deletion' : Deletion} (hdeletion : deletion'.shape = deletion.shape)
    (keys : List EntityKey) :
    Composed.SameShape Deletion.shape m m' (collectDeletion store names deletion keys)
      (collectDeletion store' names deletion' keys) := by
  induction keys generalizing store store' names deletion deletion' with
  | nil => exact .of_ok hdeletion (h.sameShape hR)
  | cons key rest ih =>
    rw [collectDeletion, collectDeletion]
    rcases h.cases key with ⟨hnone, hnone'⟩ | ⟨e, e', he, he', hentity⟩
    · simp only [hnone, hnone']
      exact .of_error _ (h.sameShape hR)
    · obtain ⟨name, names₁, hdefine⟩ := names.exists_define e
      have hbound := hentity.bindVariable name
      have hmodify : (store.modify key fun _ => e.bindVariable name).Corresponds R m m'
          (store'.modify key fun _ => e'.bindVariable name) := h.modify hbound
      simp only [he, he', hdefine, hentity.toSameShape.define hdefine]
      rcases hbound.id_cases with ⟨hid, hid'⟩ | ⟨id, id', hid, hid'⟩
      · simp only [hid, hid']
        exact ih hmodify names₁ hdeletion
      · simp only [hid, hid', hbound.paramFor]
        exact ih hmodify _ (Deletion.add_shape hdeletion hbound.toSameShape _ _ id id')

theorem composeDelete_sameShape (h : store.Corresponds R m m' store') (hR : OneToOne R)
    (names : Names) (keys : List EntityKey) (detach : Bool) :
    Composed.SameShape (Option.map Statement.shape) m m' (composeDelete store names keys detach)
      (composeDelete store' names keys detach) := by
  have hempty : Deletion.shape {} = Deletion.shape {} := rfl
  obtain ⟨houtcome, hnames, hstore⟩ := collectDeletion_sameShape h hR names hempty keys
  refine ⟨?_, hnames, hstore⟩
  simp only [composeDelete]
  generalize (collectDeletion store names {} keys).outcome = outcome at houtcome
  generalize (collectDeletion store' names {} keys).outcome = outcome' at houtcome
  cases outcome with
  | error err =>
    cases outcome' with
    | error err' => exact congrArg Except.error (Except.error.inj houtcome)
    | ok deletion' => cases houtcome
  | ok deletion =>
    cases outcome' with
    | error err' => cases houtcome
    | ok deletion' =>
      exact congrArg Except.ok (Deletion.toStatement?_shape (Except.ok.inj houtcome))

/-! ### Looking up -/

theorem composeLookup_sameShape (h : store.Corresponds R m m' store') (hR : OneToOne R)
    (names : Names) (key : EntityKey) :
    Composed.SameShape Statement.shape m m' (composeLookup store names key)
      (composeLookup store' names key) := by
  rw [composeLookup, composeLookup]
  rcases h.cases key with ⟨hnone, hnone'⟩ | ⟨e, e', he, he', hentity⟩
  · simp only [hnone, hnone']
    exact .of_error _ (h.sameShape hR)
  · obtain ⟨name, names₁, hdefine⟩ := names.exists_define e
    have hbound := hentity.bindVariable name
    have hmodify : (store.modify key fun _ => e.bindVariable name).SameShape m m'
        (store'.modify key fun _ => e'.bindVariable name) := (h.modify hbound).sameShape hR
    simp only [he, he', hdefine, hentity.toSameShape.define hdefine]
    rcases hbound.id_cases with ⟨hid, hid'⟩ | ⟨id, id', hid, hid'⟩
    · simp only [hid, hid', hbound.typeName]
      exact .of_error _ hmodify
    · simp only [hid, hid', hbound.paramFor]
      obtain ⟨param, names₂, hparam⟩ : ∃ param names₂,
          names₁.paramFor (e.bindVariable name) "id" = (param, names₂) := ⟨_, _, rfl⟩
      simp only [hparam]
      refine .of_ok (Clauses.shape_toStatement ?_ rfl) hmodify
      simp only [lookupClauses, hbound.isNode]

/-! ### Traversing -/

/-- Traversals that differ in property values and in how many rows they ask for only. -/
structure Traversal.SameShape (t t' : Traversal) : Prop where
  type : t'.type = t.type
  direction : t'.direction = t.direction
  endLabels : t'.endLabels = t.endLabels
  /-- The properties have the same names, in the same order. -/
  fields : t'.properties.map Prod.fst = t.properties.map Prod.fst
  skip : t'.skip.isSome = t.skip.isSome
  limit : t'.limit.isSome = t.limit.isSome

namespace Traversal

theorem bindProperties_shape {properties properties' : List (String × Value)}
    (hfields : properties'.map Prod.fst = properties.map Prod.fst) (type : String) (names : Names)
    {params params' : Dict Value} (hparams : params'.names = params.names) :
    ∃ fields names₁ params₁ params₁',
      bindProperties type names params properties = (fields, names₁, params₁) ∧
      bindProperties type names params' properties' = (fields, names₁, params₁') ∧
      params₁'.names = params₁.names := by
  induction properties generalizing properties' names params params' with
  | nil =>
    obtain rfl := List.map_eq_nil_iff.mp hfields
    exact ⟨_, _, _, _, rfl, rfl, hparams⟩
  | cons pair rest ih =>
    cases properties' with
    | nil => cases hfields
    | cons pair' rest' =>
      obtain ⟨field, value⟩ := pair
      obtain ⟨field', value'⟩ := pair'
      obtain ⟨hfield, hrest⟩ := List.cons.inj hfields
      obtain rfl : field' = field := hfield
      obtain ⟨param, names', hparam⟩ : ∃ param names',
          names.param "rel" type field' = (param, names') := ⟨_, _, rfl⟩
      obtain ⟨fields, names₁, params₁, params₁', heq, heq', hsame⟩ :=
        ih hrest names' (Dict.names_insert_congr hparams param value value')
      refine ⟨(field', param) :: fields, names₁, params₁, params₁', ?_, ?_, hsame⟩
      · rw [bindProperties, hparam]
        simp only [heq]
      · rw [bindProperties, hparam]
        simp only [heq']

theorem cut_shape {count count' : Option UInt64} (hcount : count'.isSome = count.isSome)
    (keyword param : String) {params params' : Dict Value}
    (hparams : params'.names = params.names) :
    ∃ text params₁ params₁', cut keyword param count params = (text, params₁) ∧
      cut keyword param count' params' = (text, params₁') ∧ params₁'.names = params₁.names := by
  cases count with
  | none =>
    obtain rfl : count' = none := by simpa using hcount
    exact ⟨_, _, _, rfl, rfl, hparams⟩
  | some n =>
    rw [Option.isSome_some, Option.isSome_iff_exists] at hcount
    obtain ⟨n', rfl⟩ := hcount
    exact ⟨_, _, _, rfl, rfl, Dict.names_insert_congr hparams _ _ _⟩

/-- Property values and row counts are not written. Both are bound to parameters, and whether they
are there at all is what the shape of a traversal says. -/
theorem SameShape.statement {t t' : Traversal} (h : t.SameShape t') (start : NodePattern)
    (fields : List FieldParam) (condition other skip limit : String) (params : Dict Value) :
    t'.statement start fields condition other skip limit params =
      t.statement start fields condition other skip limit params := by
  obtain ⟨type, direction, endLabels, properties, skip, limit⟩ := t
  obtain ⟨type', direction', endLabels', properties', skip', limit'⟩ := t'
  obtain rfl : type' = type := h.type
  obtain rfl : direction' = direction := h.direction
  obtain rfl : endLabels' = endLabels := h.endLabels
  rfl

theorem SameShape.exists_statementFrom {t t' : Traversal} (h : t.SameShape t') (names : Names)
    {params params' : Dict Value} (hparams : params'.names = params.names) (start : NodePattern)
    (condition other : String) :
    ∃ s s' names₁, t.statementFrom names params start condition other = (s, names₁) ∧
      t'.statementFrom names params' start condition other = (s', names₁) ∧ s'.shape = s.shape := by
  obtain ⟨fields, names₁, params₁, params₁', hbind, hbind', h₁⟩ :=
    bindProperties_shape h.fields t.type names hparams
  obtain ⟨skip, params₂, params₂', hskip, hskip', h₂⟩ := cut_shape h.skip "SKIP" "skip" h₁
  obtain ⟨limit, params₃, params₃', hlimit, hlimit', h₃⟩ := cut_shape h.limit "LIMIT" "limit" h₂
  have hbind'' :
      bindProperties t'.type names params' t'.properties = (fields, names₁, params₁') := by
    rw [h.type, hbind']
  refine ⟨t.statement start fields condition other skip limit params₃,
    t'.statement start fields condition other skip limit params₃', names₁, ?_, ?_, ?_⟩
  · simp only [statementFrom, hbind, hskip, hlimit]
  · simp only [statementFrom, hbind'', hskip', hlimit']
  · rw [h.statement, Statement.shape, Statement.shape]
    exact congrArg (fun names => (_, names, _)) h₃

end Traversal

theorem composeTraversal_sameShape (h : store.Corresponds R m m' store') (hR : OneToOne R)
    (names : Names) (start : EntityKey) {t t' : Traversal} (ht : t.SameShape t') (other : String) :
    Composed.SameShape Statement.shape m m' (composeTraversal store names start t other)
      (composeTraversal store' names start t' other) := by
  rcases h.cases start with ⟨hnone, hnone'⟩ | ⟨e, e', he, he', hentity⟩
  · simp only [composeTraversal, hnone, hnone']
    exact .of_error _ (h.sameShape hR)
  · have hkind' : e'.isRelationship = e.isRelationship := by
      rw [Entity.isRelationship, hentity.isNode, Entity.isRelationship]
    cases hkind : e.isRelationship with
    | true =>
      simp only [composeTraversal, he, he', hkind', hkind]
      exact .of_error _ (h.sameShape hR)
    | false =>
      have hnode' := hkind'.trans hkind
      obtain ⟨name, names₁, hdefine⟩ := names.exists_define e
      have hdefine' := hentity.toSameShape.define hdefine
      have hbound := hentity.bindVariable name
      have hempty : (Dict.empty : Dict Value).names = Dict.empty.names := rfl
      have hmodify : (store.modify start fun _ => e.bindVariable name).SameShape m m'
          (store'.modify start fun _ => e'.bindVariable name) := (h.modify hbound).sameShape hR
      rcases hentity.id_cases with ⟨hid, hid'⟩ | ⟨id, id', hid, hid'⟩
      · obtain ⟨s, s', names₂, hs, hs', hshape⟩ :=
          ht.exists_statementFrom names₁ hempty ⟨name, e.labels, []⟩ "" other
        rw [← hentity.labels] at hs'
        rw [composeTraversal_of_no_id he hkind hdefine hid hs,
          composeTraversal_of_no_id he' hnode' hdefine' hid' hs']
        exact .of_ok hshape hmodify
      · obtain ⟨param, names₂, hparam⟩ : ∃ param names₂,
            names₁.paramFor (e.bindVariable name) "id" = (param, names₂) := ⟨_, _, rfl⟩
        have hparam' := (hbound.paramFor names₁ "id").trans hparam
        obtain ⟨s, s', names₃, hs, hs', hshape⟩ := ht.exists_statementFrom names₂
          (Dict.names_insert_congr hempty param (.integer id) (.integer id')) ⟨name, [], []⟩
          (" WHERE " ++ (IdCondition.mk name param).write) other
        rw [composeTraversal_of_id he hkind hdefine hid hparam hs,
          composeTraversal_of_id he' hnode' hdefine' hid' hparam' hs']
        exact .of_ok hshape hmodify

/-! ### All statements -/

/-- Values do not reach the text: composed from two stores of one shape, statements show the same
text, the same returned variables and the same names of parameters, and hand out the same names, or
they fail for the same reason. This holds of saving, deleting, looking up and traversing, and for
traversals whatever the properties are compared with and however many rows are asked for. -/
theorem composed_of_sameShape (h : store.SameShape m m' store') (names : Names) :
    (∀ keys, Composed.SameShape Statement.shape m m' (composeSave m store names keys)
      (composeSave m' store' names keys)) ∧
    (∀ keys detach, Composed.SameShape (Option.map Statement.shape) m m'
      (composeDelete store names keys detach) (composeDelete store' names keys detach)) ∧
    (∀ key, Composed.SameShape Statement.shape m m' (composeLookup store names key)
      (composeLookup store' names key)) ∧
    (∀ start (t t' : Traversal) other, t.SameShape t' →
      Composed.SameShape Statement.shape m m' (composeTraversal store names start t other)
        (composeTraversal store' names start t' other)) :=
  ⟨fun keys => composeSave_sameShape h.corresponds h.oneToOne names keys,
    fun keys detach => composeDelete_sameShape h.corresponds h.oneToOne names keys detach,
    fun key => composeLookup_sameShape h.corresponds h.oneToOne names key,
    fun start _ _ other ht =>
      composeTraversal_sameShape h.corresponds h.oneToOne names start ht other⟩

/-- A persisted person who has a variable and from whom a field was removed, and two relationships
from there to one bare id. -/
def contactStore (name : String) (id other : Int64) : Store :=
  ⟨[{ (Entity.node "Person" ["Person"] (.empty true)).load [("name", .string name)] with
      id := some id
      deleted := ["age"]
      queryVariable := some "n0" },
    Entity.relationship "Knows" [] (some (.entity ⟨0⟩)) (some (.id other)) (.empty true),
    Entity.relationship "Knows" [] (some (.entity ⟨0⟩)) (some (.id other)) (.empty true)]⟩

/-- The shape does not depend on the name, the id and the bare id. -/
theorem contactStore_sameShape (m m' : Moment) (name name' : String) (id id' other other' : Int64) :
    (contactStore name id other).SameShape m m' (contactStore name' id' other') := by
  have hends : ∀ key role, (contactStore name id other).endpoint? key role = none ∧
        (contactStore name' id' other').endpoint? key role = none ∨
      (contactStore name id other).endpoint? key role = some (.entity ⟨0⟩) ∧
        (contactStore name' id' other').endpoint? key role = some (.entity ⟨0⟩) ∨
      (contactStore name id other).endpoint? key role = some (.id other) ∧
        (contactStore name' id' other').endpoint? key role = some (.id other') := by
    rintro ⟨_ | _ | _ | n⟩ (_ | _)
    · exact .inl ⟨rfl, rfl⟩
    · exact .inl ⟨rfl, rfl⟩
    · exact .inr (.inl ⟨rfl, rfl⟩)
    · exact .inr (.inr ⟨rfl, rfl⟩)
    · exact .inr (.inl ⟨rfl, rfl⟩)
    · exact .inr (.inr ⟨rfl, rfl⟩)
    · exact .inl ⟨rfl, rfl⟩
    · exact .inl ⟨rfl, rfl⟩
  constructor
  case size => rfl
  case entities =>
    rintro ⟨_ | _ | _ | n⟩ e e' he he'
    · cases he; cases he'
      exact ⟨rfl, rfl, rfl, rfl, rfl, rfl, rfl⟩
    · cases he; cases he'
      exact ⟨rfl, rfl, rfl, rfl, rfl, rfl, rfl⟩
    · cases he; cases he'
      exact ⟨rfl, rfl, rfl, rfl, rfl, rfl, rfl⟩
    · cases he
  case ends =>
    intro key role
    rcases hends key role with ⟨h, h'⟩ | ⟨h, h'⟩ | ⟨h, h'⟩
    · rw [h, h']
    · rw [h, h']
    · rw [h, h']
      rfl
  case ids =>
    have hbare : ∀ key role i i', (contactStore name id other).endpoint? key role = some (.id i) →
        (contactStore name' id' other').endpoint? key role = some (.id i') →
          i = other ∧ i' = other' := by
      intro key role i i' hi hi'
      rcases hends key role with ⟨h, h'⟩ | ⟨h, h'⟩ | ⟨h, h'⟩
      · exact nomatch h.symm.trans hi
      · exact nomatch h.symm.trans hi
      · exact ⟨by simpa [hi] using h, by simpa [hi'] using h'⟩
    intro key role i i' hi hi' key₂ role₂ j j' hj hj'
    obtain ⟨rfl, rfl⟩ := hbare key role i i' hi hi'
    obtain ⟨rfl, rfl⟩ := hbare key₂ role₂ j j' hj hj'
    exact iff_of_true rfl rfl

theorem composed_of_sameShape_contacts :
    (contactStore "x" 5 9).SameShape .epoch .epoch (contactStore "y" 6 10) ∧
      Composed.SameShape Statement.shape .epoch .epoch
        (composeSave .epoch (contactStore "x" 5 9) { nodes := 1 } [⟨1⟩, ⟨2⟩])
        (composeSave .epoch (contactStore "y" 6 10) { nodes := 1 } [⟨1⟩, ⟨2⟩]) :=
  have hshape := contactStore_sameShape .epoch .epoch "x" "y" 5 6 9 10
  ⟨hshape, (composed_of_sameShape hshape { nodes := 1 }).1 [⟨1⟩, ⟨2⟩]⟩

end GraphMapping
