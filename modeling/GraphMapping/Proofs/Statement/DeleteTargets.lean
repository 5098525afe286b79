import GraphMapping.Proofs.Statement.DeleteBatch
import GraphMapping.Proofs.Statement.SaveBatch
import GraphMapping.Work.Preview
import Mathlib.Data.List.Forall2

/-!
# What a delete statement says

Collecting a deletion builds the text, the parameters and the flag for nodes side by side, and
passes over what has no id. Here all three are read off one list, the listed entities with an id:
each of them has one target, under its variable and with a parameter of its own. An entity that is
listed twice has two targets.

The proof follows the list of keys. A step hands out a variable, which leaves the earlier targets as
they are, and it may add a target; that its parameter replaces no earlier one is
`Deletion.Collects.param_fresh`.

## Main definitions

* `Store.persisted`: the listed entities with an id.
* `Deletion.Lists`: a deletion of these entities and of nothing else.
* `Statement.Deletes`: a statement that deletes these entities.
* `DeletesListed`: what a delete of any keys comes to.

## Main results

* `collectDeletion_lists`: what is collected from stored keys.
* `collectDeletion_unknown`: a key that is not stored.
* `composeDelete_deletes`: the statement of a batch.
-/

namespace GraphMapping

/-! ### Listed entities with an id -/

/-- A listed entity that has an id. -/
structure Persisted where
  key : EntityKey
  entity : Entity
  id : Int64

namespace Persisted

/-- The pattern that the entity is matched by, under a variable. -/
def pattern (x : Persisted) (name : String) : Pattern :=
  if x.entity.isNode then .node ⟨name, [], []⟩ else .betweenAny ⟨name, x.entity.labels, []⟩

/-- The text that matches the entity under a variable and asks for its id. -/
def matchText (x : Persisted) (c : IdCondition) : String :=
  "MATCH " ++
    (if x.entity.isNode then "(" ++ c.name ++ ")"
      else "()-[" ++ c.name ++ Identifier.labelFragment x.entity.labels ++ "]-()") ++
    " WHERE id(" ++ c.name ++ ") = $" ++ c.param

/-- The condition is on the variable of the entity, and its parameter is bound to the id. -/
structure AskedBy (x : Persisted) (store : Store) (params : Dict Value) (c : IdCondition) :
    Prop where
  name : store.nameOf? x.key = some c.name
  id : params.get? c.param = some (.integer x.id)

theorem matchText_eq (x : Persisted) (c : IdCondition) :
    "MATCH " ++ (x.pattern c.name).write ++ " WHERE " ++ c.write = x.matchText c := by
  have hasks : " WHERE id(" = " WHERE " ++ "id(" := by decide
  have hopens : "()-[" = "()-" ++ "[" := by decide
  have hcloses : "]-()" = "]" ++ "-()" := by decide
  cases hnode : x.entity.isNode with
  | true =>
    have hbare : (NodePattern.mk c.name [] []).write = "(" ++ c.name ++ ")" := by
      simp [NodePattern.write, Identifier.labelFragment, writeFieldParams]
    rw [matchText, pattern, hnode, if_pos rfl, if_pos rfl, Pattern.write, hbare, IdCondition.write,
      hasks]
    simp only [String.append_assoc, -String.reduceAppend]
  | false =>
    have hnofields : writeFieldParams [] = "" := rfl
    rw [matchText, pattern, hnode, if_neg Bool.noConfusion, if_neg Bool.noConfusion, Pattern.write,
      RelationshipPattern.write, hnofields, String.append_empty, IdCondition.write, hasks, hopens,
      hcloses]
    simp only [String.append_assoc, -String.reduceAppend]

/-- The match clauses of targets that have the patterns of these entities. -/
theorem map_match_eq {listed : List Persisted} {targets : List (Pattern × IdCondition)}
    (h : List.Forall₂ (fun x t => t.1 = x.pattern t.2.name) listed targets) :
    targets.map (fun t => "MATCH " ++ t.1.write ++ " WHERE " ++ t.2.write) =
      List.zipWith matchText listed (targets.map Prod.snd) := by
  induction h with
  | nil => rfl
  | cons hx _ ih =>
    rw [List.map_cons, List.map_cons, List.zipWith_cons_cons, ih, hx, matchText_eq]

end Persisted

/-- The listed entities that have an id, in the order of the list and as often as they are
listed. -/
def Store.persisted (store : Store) (keys : List EntityKey) : List Persisted :=
  keys.filterMap fun key => (store.get? key).bind fun e => e.id.map (Persisted.mk key e)

theorem Store.persisted_eq_nil_iff {store : Store} {keys : List EntityKey} :
    store.persisted keys = [] ↔ ∀ key ∈ keys, ∀ e, store.get? key = some e → e.id = none := by
  simp [persisted, List.filterMap_eq_nil_iff]

/-! ### Collecting them -/

namespace Deletion

/-- The targets of the deletion are these entities, in order, and the flag says whether a node is
among them. -/
structure Lists (store : Store) (listed : List Persisted) (deletion : Deletion) : Prop where
  targets : List.Forall₂ (fun x t => x.AskedBy store deletion.params t.2 ∧ t.1 = x.pattern t.2.name)
    listed deletion.targets
  hasNode : deletion.hasNode = listed.any (·.entity.isNode)

namespace Lists

variable {store₀ store store' : Store} {names₀ names names' : Names} {deletion : Deletion}
  {listed : List Persisted}

theorem nothing (store : Store) : Lists store [] {} := ⟨.nil, rfl⟩

/-- Handing out more variables leaves the targets as they are. -/
theorem rename (h : Lists store listed deletion) (hnaming : Naming store names store' names') :
    Lists store' listed deletion where
  targets := h.targets.imp fun x _ hx => ⟨⟨hnaming.keeps x.key _ hx.1.name, hx.1.id⟩, hx.2⟩
  hasNode := h.hasNode

/-- A persisted entity with its variable becomes the last target. -/
theorem add (h : Lists store listed deletion) (hcollects : deletion.Collects store₀ names₀ store names)
    {x : Persisted} {e : Entity} {name : String} (he : store.get? x.key = some e)
    (hsame : e.releaseVariable = x.entity.releaseVariable) (hname : e.queryVariable = some name) :
    Lists store (listed ++ [x]) (deletion.add name (names.paramFor e "id").1 e x.id) := by
  have hnode : e.isNode = x.entity.isNode :=
    (congrArg Entity.isNode hsame : e.releaseVariable.isNode = _)
  have hlabels : e.labels = x.entity.labels :=
    (congrArg Entity.labels hsame : e.releaseVariable.labels = _)
  have hstored : store.nameOf? x.key = some name := (Store.nameOf?_of_get? he).trans hname
  constructor
  case targets =>
    refine List.rel_append ?_ (.cons ⟨⟨hstored, Dict.get?_insert_self ..⟩, ?_⟩ .nil)
    · -- an earlier parameter is bound as before, since the new one is fresh
      refine h.targets.imp fun y t hy => ⟨⟨hy.1.name, ?_⟩, hy.2⟩
      have hfresh := hcollects.param_fresh he hname _ (Dict.get?_eq_some_iff.mp hy.1.id)
      exact (Dict.get?_insert_of_ne _ hfresh _).trans hy.1.id
    · simp only [Persisted.pattern, hnode, hlabels]
  case hasNode =>
    rw [List.any_append, ← h.hasNode, List.any_cons, List.any_nil, Bool.or_false, ← hnode]
    rfl

theorem targets_eq_nil_iff (h : Lists store listed deletion) :
    deletion.targets = [] ↔ listed = [] := by
  rw [← List.length_eq_zero_iff, ← h.targets.length_eq, List.length_eq_zero_iff]

theorem write_eq (h : Lists store listed deletion) :
    deletion.write =
      " ".intercalate (List.zipWith Persisted.matchText listed (deletion.targets.map Prod.snd)) ++
      (if listed.any (·.entity.isNode) then " DETACH DELETE " else " DELETE ") ++
      ", ".intercalate ((deletion.targets.map Prod.snd).map IdCondition.name) := by
  have hmatch := Persisted.map_match_eq (h.targets.imp fun _ _ hx => hx.2)
  rw [write, hmatch, h.hasNode, List.map_map]
  rfl

end Lists

end Deletion

section Collect

variable {store₀ store : Store} {names₀ names : Names} {deletion : Deletion}
  {listed : List Persisted} {keys : List EntityKey}

/-- Collecting from stored keys succeeds, and it adds the listed entities with an id. -/
theorem collectDeletion_lists (hcollects : deletion.Collects store₀ names₀ store names)
    (h : deletion.Lists store listed) (hstored : ∀ key ∈ keys, (store₀.get? key).isSome = true) :
    let composed := collectDeletion store names deletion keys
    ∃ collected : Deletion, composed.outcome = .ok collected ∧
      collected.Lists composed.store (listed ++ store₀.persisted keys) := by
  induction keys generalizing store names deletion listed with
  | nil => exact ⟨deletion, rfl, by rwa [Store.persisted, List.filterMap_nil, List.append_nil]⟩
  | cons key rest ih =>
    have hrest := fun k hk => hstored k (List.mem_cons_of_mem key hk)
    obtain ⟨e₀, he₀⟩ := Option.isSome_iff_exists.mp (hstored key List.mem_cons_self)
    obtain ⟨e, he, hsame⟩ := hcollects.naming.get? he₀
    obtain ⟨name, names₁, hdefine⟩ := names.exists_define e
    have hnaming := Naming.define he hdefine
    have hcollects₁ := hcollects.rename hnaming (hcollects.named.define he hdefine)
      fun typeName => (Names.paramCount_define hdefine typeName).ge
    have h₁ := h.rename hnaming
    have hid : (e.bindVariable name).id = e₀.id :=
      (congrArg Entity.id hsame : e.releaseVariable.id = _)
    rw [collectDeletion]
    simp only [he, hdefine]
    cases hid₀ : e₀.id with
    | none =>
      have hskip : store₀.persisted (key :: rest) = store₀.persisted rest :=
        List.filterMap_cons_none (by simp [he₀, hid₀])
      simp only [hid.trans hid₀, hskip]
      exact ih hcollects₁ h₁ hrest
    | some id =>
      have hlist : store₀.persisted (key :: rest) = ⟨key, e₀, id⟩ :: store₀.persisted rest :=
        List.filterMap_cons_some (by simp [he₀, hid₀])
      have he₁ := Store.get?_modify_of_get? he fun _ => e.bindVariable name
      have hadd := h₁.add (x := ⟨key, e₀, id⟩) hcollects₁ he₁ hsame rfl
      rw [hlist, List.append_cons]
      simp only [hid.trans hid₀]
      exact ih (hcollects₁.add he₁ rfl id) hadd hrest

/-- The first key that is not stored ends the collecting. The entities in front of it have been
given variables by then, but there is no statement. -/
theorem collectDeletion_unknown {before after : List EntityKey} {key : EntityKey}
    (hbefore : ∀ k ∈ before, (store.get? k).isSome = true) (hkey : store.get? key = none) :
    (collectDeletion store names deletion (before ++ key :: after)).outcome =
      .error (.compilation (.unknownEntity key)) := by
  induction before generalizing store names deletion with
  | nil => simp only [List.nil_append, collectDeletion, hkey]
  | cons k rest ih =>
    obtain ⟨e, he⟩ := Option.isSome_iff_exists.mp (hbefore k List.mem_cons_self)
    obtain ⟨name, names₁, hdefine⟩ := names.exists_define e
    have hnaming := Naming.define he hdefine
    have hrest : ∀ k' ∈ rest, ((store.modify k fun _ => e.bindVariable name).get? k').isSome :=
      fun k' hk' => (hnaming.isSome_get? k').trans (hbefore k' (List.mem_cons_of_mem k hk'))
    have hkey' : (store.modify k fun _ => e.bindVariable name).get? key = none := by
      rw [← Option.not_isSome_iff_eq_none, hnaming.isSome_get?, hkey]
      exact Bool.noConfusion
    rw [List.cons_append, collectDeletion]
    simp only [he, hdefine]
    cases (e.bindVariable name).id with
    | none => exact ih hrest hkey'
    | some id => exact ih hrest hkey'

end Collect

/-! ### The statement -/

/-- The statement deletes these entities: each is matched by its variable and asked for its id, in
order, and nodes are detached if there are any. Nothing else is bound, and nothing is returned. -/
structure Statement.Deletes (statement : Statement) (store : Store) (listed : List Persisted)
    (conditions : List IdCondition) : Prop where
  asked : List.Forall₂ (fun x c => x.AskedBy store statement.params c) listed conditions
  text : statement.text =
    " ".intercalate (List.zipWith Persisted.matchText listed conditions) ++
    (if listed.any (·.entity.isNode) then " DETACH DELETE " else " DELETE ") ++
    ", ".intercalate (conditions.map IdCondition.name)
  /-- No two conditions share a parameter. -/
  distinct : (conditions.map IdCondition.param).Nodup
  params : statement.params.names.Perm (conditions.map IdCondition.param)
  returns : statement.returns = []

theorem Deletion.Lists.deletes {store₀ store : Store} {names₀ names : Names} {deletion : Deletion}
    {listed : List Persisted} (h : deletion.Lists store listed)
    (hcollects : deletion.Collects store₀ names₀ store names) :
    Statement.Deletes ⟨deletion.write, deletion.params, []⟩ store listed
      (deletion.targets.map Prod.snd) where
  asked := List.forall₂_map_right_iff.mpr (h.targets.imp fun _ _ hx => hx.1)
  text := h.write_eq
  distinct := by
    rw [List.map_map]
    exact hcollects.params.nodup_iff.mp deletion.params.nodup_names
  params := by
    rw [List.map_map]
    exact hcollects.params
  returns := rfl

/-- What a delete of the keys comes to. -/
structure DeletesListed (store : Store) (names : Names) (keys : List EntityKey) (detach : Bool) :
    Prop where
  /-- There is nothing to delete exactly if no listed entity has an id. -/
  nothing_iff : (∀ key ∈ keys, (store.get? key).isSome = true) →
    ((composeDelete store names keys detach).outcome = .ok none ↔
      ∀ key ∈ keys, ∀ e, store.get? key = some e → e.id = none)
  /-- Otherwise there is a statement, which deletes the listed entities with an id. -/
  statement : (∀ key ∈ keys, (store.get? key).isSome = true) →
    (∃ key ∈ keys, ∃ e, store.get? key = some e ∧ e.id.isSome = true) →
    ∃ statement conditions, (composeDelete store names keys detach).outcome = .ok (some statement) ∧
      statement.Deletes (composeDelete store names keys detach).store (store.persisted keys) conditions
  /-- The variables of the statement belong to one entity each. -/
  named : (composeDelete store names keys detach).store.NamedBy (composeDelete store names keys detach).names
  /-- The first key that is not stored is refused. -/
  unknown : (∃ key ∈ keys, store.get? key = none) →
    ∃ before unknown after, keys = before ++ unknown :: after ∧
      (∀ key ∈ before, (store.get? key).isSome = true) ∧ store.get? unknown = none ∧
      (composeDelete store names keys detach).outcome = .error (.compilation (.unknownEntity unknown))
  /-- The request to detach changes nothing. -/
  unaffected : ∀ detach', composeDelete store names keys detach' = composeDelete store names keys detach
  /-- A pending delete is this with one key, whether it is to detach or not. -/
  operation : ∀ (m : Moment) (op : Operation) (detach' : Bool), op.kind = .delete detach' →
    keys = [op.key] → composeOperation m store names op = composeDelete store names keys detach

/-- A batch of stored keys is deleted by one statement, unless no listed entity has an id; a key
that is not stored is refused. The request to detach changes nothing. -/
theorem composeDelete_deletes {store : Store} {names : Names} (hnamed : store.NamedBy names)
    (keys : List EntityKey) (detach : Bool) : DeletesListed store names keys detach := by
  obtain ⟨deletion, hcollects, heq⟩ := collectDeletion_collects (.start hnamed) keys
  -- what is collected from stored keys, as data and as the outcome
  have hcollected : (∀ key ∈ keys, (store.get? key).isSome = true) →
      (composeDelete store names keys detach).outcome = .ok deletion.toStatement? ∧
        deletion.Lists (composeDelete store names keys detach).store (store.persisted keys) := by
    intro hstored
    obtain ⟨collected, houtcome, hlists⟩ :=
      collectDeletion_lists (.start hnamed) (.nothing store) hstored
    obtain rfl := heq collected houtcome
    rw [composeDelete, houtcome]
    exact ⟨rfl, hlists⟩
  constructor
  case nothing_iff =>
    intro hstored
    obtain ⟨houtcome, hlists⟩ := hcollected hstored
    rw [houtcome, ← Store.persisted_eq_nil_iff, ← hlists.targets_eq_nil_iff, Deletion.toStatement?]
    split
    case isTrue hnil => exact iff_of_true rfl hnil
    case isFalse hsome => exact iff_of_false (fun h => nomatch h) hsome
  case statement =>
    rintro hstored ⟨key, hkey, e, he, hid⟩
    obtain ⟨houtcome, hlists⟩ := hcollected hstored
    have hsome : deletion.targets ≠ [] := by
      rw [Ne, hlists.targets_eq_nil_iff, Store.persisted_eq_nil_iff]
      intro hall
      rw [hall key hkey e he] at hid
      exact Bool.noConfusion hid
    rw [Deletion.toStatement?, if_neg hsome] at houtcome
    exact ⟨_, _, houtcome, hlists.deletes hcollects⟩
  case named => exact hcollects.named
  case unknown =>
    rintro ⟨key, hkey, hnone⟩
    have hfound : (keys.find? fun key => (store.get? key).isNone).isSome = true :=
      List.find?_isSome.mpr ⟨key, hkey, Option.isNone_iff_eq_none.mpr hnone⟩
    obtain ⟨unknown, hfind⟩ := Option.isSome_iff_exists.mp hfound
    obtain ⟨hunknown, before, after, rfl, hbefore⟩ := List.find?_eq_some_iff_append.mp hfind
    have hstored : ∀ key ∈ before, (store.get? key).isSome = true := fun key hk => by
      simpa using hbefore key hk
    have hunknown := Option.isNone_iff_eq_none.mp hunknown
    refine ⟨before, unknown, after, rfl, hstored, hunknown, ?_⟩
    rw [composeDelete, collectDeletion_unknown hstored hunknown]
    rfl
  case unaffected => exact fun _ => rfl
  case operation =>
    rintro m op detach' hkind rfl
    rw [composeOperation, hkind]
    rfl

/-- A person listed twice, with an unsaved relationship in between. -/
theorem composeDelete_deletes_friend :
    friendStore.NamedBy { nodes := 1 } ∧
      ∃ statement conditions,
        (composeDelete friendStore { nodes := 1 } [⟨0⟩, ⟨1⟩, ⟨0⟩] false).outcome = .ok (some statement) ∧
          statement.Deletes (composeDelete friendStore { nodes := 1 } [⟨0⟩, ⟨1⟩, ⟨0⟩] false).store
            (friendStore.persisted [⟨0⟩, ⟨1⟩, ⟨0⟩]) conditions :=
  ⟨friendStore_namedBy, (composeDelete_deletes friendStore_namedBy [⟨0⟩, ⟨1⟩, ⟨0⟩] false).statement
    (by decide) ⟨⟨0⟩, by decide, _, rfl, rfl⟩⟩

example : (composeDelete friendStore { nodes := 1 } [⟨0⟩, ⟨1⟩, ⟨0⟩] false).outcome.toOption.join.map
    (·.text) = some ("MATCH (n0) WHERE id(n0) = $n0_id_0 " ++
      "MATCH (n0) WHERE id(n0) = $n0_id_1 DETACH DELETE n0, n0") := by
  decide +kernel

end GraphMapping
