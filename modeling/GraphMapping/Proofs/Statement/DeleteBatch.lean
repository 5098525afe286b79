import GraphMapping.Proofs.Statement.Drawing
import GraphMapping.Statement.Delete

/-!
# What a delete statement contains

A delete statement is collected key by key. Every persisted entity becomes a target: it is mentioned
by its variable, and its id is asked for with a parameter of its own. Entities that are passed over
are given variables all the same.

## Main definitions

* `Deletion.Collects`: a deletion whose targets are stored entities with parameters of their own.

## Main results

* `collectDeletion_collects`: what is collected from any keys.
-/

namespace GraphMapping

namespace Deletion

/-- The targets of the deletion are stored entities under their variables, and each has a parameter
of its own. Data is read from the first store, variables from the second one. -/
structure Collects (store₀ : Store) (names₀ : Names) (store : Store) (names : Names)
    (deletion : Deletion) : Prop where
  naming : Naming store₀ names₀ store names
  named : store.NamedBy names
  counted : ∀ typeName, names₀.paramCount typeName ≤ names.paramCount typeName
  /-- The parameter of a target is spelled after its variable, with a number of its type. -/
  target : ∀ t ∈ deletion.targets, ∃ key n, store.nameOf? key = some t.2.name ∧
    names₀.paramCount (Endpoint.typeName store₀ (.entity key)) ≤ n ∧
    n < names.paramCount (Endpoint.typeName store₀ (.entity key)) ∧
    t.2.param = Names.paramName t.2.name "id" n
  pattern : ∀ t ∈ deletion.targets, t.1.names = [t.2.name] ∧ t.1.params = []
  params : deletion.params.names.Perm (deletion.targets.map (·.2.param))

namespace Collects

variable {store₀ store : Store} {names₀ names : Names} {deletion : Deletion}

theorem start (hnamed : store.NamedBy names) : Collects store names store names {} where
  naming := .refl store names
  named := hnamed
  counted _ := Nat.le_refl _
  target _ ht := absurd ht List.not_mem_nil
  pattern _ ht := absurd ht List.not_mem_nil
  params := .refl _

theorem rename (h : Collects store₀ names₀ store names deletion) {store' : Store} {names' : Names}
    (hnaming : Naming store names store' names') (hnamed : store'.NamedBy names')
    (hcount : ∀ typeName, names.paramCount typeName ≤ names'.paramCount typeName) :
    Collects store₀ names₀ store' names' deletion where
  naming := h.naming.trans hnaming
  named := hnamed
  counted typeName := (h.counted typeName).trans (hcount typeName)
  target t ht := by
    obtain ⟨key, n, hname, hle, hlt, hparam⟩ := h.target t ht
    exact ⟨key, n, hnaming.keeps key _ hname, hle, hlt.trans_le (hcount _), hparam⟩
  pattern := h.pattern
  params := h.params

/-- The next parameter for the id of an entity has not been bound yet: another entity has another
variable, and earlier parameters of the same entity have smaller numbers. -/
theorem param_fresh (h : Collects store₀ names₀ store names deletion) {key : EntityKey} {e : Entity}
    {name : String} (he : store.get? key = some e) (hname : e.queryVariable = some name) :
    ∀ entry ∈ deletion.params.toList, entry.1 ≠ (names.paramFor e "id").1 := by
  intro entry hentry
  have hstored : store.nameOf? key = some name := (Store.nameOf?_of_get? he).trans hname
  have hissued := h.named.issued key name hstored
  obtain ⟨t, ht, heq⟩ :=
    List.mem_map.mp (h.params.mem_iff.mp (List.mem_map_of_mem hentry : entry.1 ∈ _))
  obtain ⟨key', n, hname', -, hlt, ht'⟩ := h.target t ht
  rw [← heq, ht', Names.paramFor, hname, Option.getD_some, Names.param_eq]
  by_cases hsame : t.2.name = name
  · obtain rfl := h.named.distinct key key' name hstored (hsame ▸ hname')
    rw [Endpoint.typeName_of_same h.naming.same he] at hlt
    rw [hsame]
    exact Names.paramName_ne_of_number hissued.isStem (Nat.ne_of_lt hlt) _ _
  · exact Names.paramName_ne_of_issued (h.named.issued key' _ hname') hissued hsame _ _ _ _

/-- A persisted entity with its variable becomes a target. -/
theorem add (h : Collects store₀ names₀ store names deletion) {key : EntityKey} {e : Entity}
    {name : String} (he : store.get? key = some e) (hname : e.queryVariable = some name)
    (id : Int64) :
    Collects store₀ names₀ store (names.paramFor e "id").2
      (deletion.add name (names.paramFor e "id").1 e id) := by
  have hfresh := h.param_fresh he hname
  have hparam : names.paramFor e "id" = names.param name e.typeName "id" := by
    rw [Names.paramFor, hname]
    rfl
  have hstored : store.nameOf? key = some name := (Store.nameOf?_of_get? he).trans hname
  have htype := Endpoint.typeName_of_same h.naming.same he
  have hnames := names.handsOutParams_param name e.typeName "id"
  have hnaming : Naming store names store (names.param name e.typeName "id").2 :=
    .of_count store hnames.count
  have h' := h.rename hnaming (h.named.mono fun _ hissued => hissued.congr hnames.count) hnames.le
  rw [hparam, Names.param_eq] at hfresh ⊢
  rw [Names.param_eq] at h'
  constructor
  case naming => exact h'.naming
  case named => exact h'.named
  case counted => exact h'.counted
  case target =>
    intro t ht
    rcases List.mem_append.mp ht with ht | ht
    · exact h'.target t ht
    · obtain rfl := List.mem_singleton.mp ht
      refine ⟨key, names.paramCount e.typeName, hstored, ?_, ?_, rfl⟩
      · rw [htype]
        exact h.counted _
      · have hone := hnames.paramCount_self
        rw [Names.param_eq] at hone
        rw [htype, hone]
        exact Nat.lt_succ_self _
  case pattern =>
    intro t ht
    rcases List.mem_append.mp ht with ht | ht
    · exact h.pattern t ht
    · obtain rfl := List.mem_singleton.mp ht
      by_cases hnode : e.isNode = true
      · simp [hnode, Pattern.names, Pattern.params]
      · simp [hnode, Pattern.names, Pattern.params]
  case params =>
    have hinsert : (deletion.params.insert (Names.paramName name "id" (names.paramCount e.typeName))
        (.integer id)).names.Perm
          (Names.paramName name "id" (names.paramCount e.typeName) :: deletion.params.names) :=
      (Entries.perm_insert hfresh).map Prod.fst
    rw [Deletion.add, List.map_append, List.map_singleton]
    exact hinsert.trans ((h.params.cons _).trans (List.perm_append_singleton _ _).symm)

end Collects

end Deletion

/-- Collecting gives variables to stored entities and makes targets of the persisted ones. -/
theorem collectDeletion_collects {store₀ store : Store} {names₀ names : Names} {deletion : Deletion}
    (h : deletion.Collects store₀ names₀ store names) (keys : List EntityKey) :
    let composed := collectDeletion store names deletion keys
    ∃ collected : Deletion, collected.Collects store₀ names₀ composed.store composed.names ∧
      ∀ d, composed.outcome = .ok d → d = collected := by
  induction keys generalizing store names deletion with
  | nil => exact ⟨deletion, h, fun d hd => (Except.ok.inj hd).symm⟩
  | cons key rest ih =>
    rw [collectDeletion]
    cases he : store.get? key with
    | none => exact ⟨deletion, h, fun d hd => nomatch hd⟩
    | some e =>
      obtain ⟨name, names₁, hdefine⟩ := names.exists_define e
      have h₁ := h.rename (Naming.define he hdefine) (h.named.define he hdefine)
        fun typeName => (Names.paramCount_define hdefine typeName).ge
      have he₁ := Store.get?_modify_of_get? he fun _ => e.bindVariable name
      simp only [hdefine]
      cases (e.bindVariable name).id with
      | none => exact ih h₁
      | some id => exact ih (h₁.add he₁ rfl id)

end GraphMapping
