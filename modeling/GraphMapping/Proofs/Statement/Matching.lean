import GraphMapping.Proofs.Statement.Composing

/-!
# How known relationships are matched

A relationship with an id is written by matching it. A save matches it between its ends and a delete
between any nodes, and both by the labels that the entity has: what they are is decided when the
entity is made, and not looked at again.

## Main definitions

* `Store.MatchesAs`: saves and deletes match an entity by these labels.

## Main results

* `Drawn.matches_relationship`: a save draws the pattern of a relationship with an id.
* `collectDeletion_matches`: a delete collects it.
* `Store.matchesAs`: every save and every delete matches a relationship by its labels.
-/

namespace GraphMapping

variable {m : Moment} {store : Store} {names : Names} {keys : List EntityKey} {key : EntityKey}
  {e : Entity} {id : Int64}

/-! ### Saves -/

/-- A relationship with an id is matched as a path. -/
theorem Drawn.matches_relationship {parts : List Part} {matched created : List Pattern}
    (h : Drawn m store keys parts matched created) (hkey : key ∈ keys)
    (he : store.get? key = some e) (hrel : e.isNode = false) (hid : e.id = some id) :
    ∃ part ∈ parts, part.mention = .entity key ∧
      ∃ start finish, part.path m store start finish ∈ matched := by
  induction h with
  | nothing => exact absurd hkey List.not_mem_nil
  | again h hagain ih =>
    rcases List.mem_append.mp hkey with hold | hlast
    · exact ih hold
    · exact ih (List.mem_singleton.mp hlast ▸ hagain)
  | @node keys parts matched created k e' added n h he' hnode hadded ih =>
    rcases List.mem_append.mp hkey with hold | hlast
    · obtain ⟨part, hpart, hmention, start, finish, hmatched⟩ := ih hold
      exact ⟨part, List.mem_append_left _ hpart, hmention, start, finish,
        List.mem_append_left _ hmatched⟩
    · obtain rfl := List.mem_singleton.mp hlast
      obtain rfl := Option.some.inj (he.symm.trans he')
      exact absurd (hnode.symm.trans hrel) Bool.noConfusion
  | @relationship keys parts matched created k e' start finish addedStart addedFinish pStart pFinish
      part h he' hrel' hstart hfinish hdrawStart hdrawFinish hpart hnew ih =>
    rcases List.mem_append.mp hkey with hold | hlast
    · obtain ⟨p, hp, hmention, s, f, hmatched⟩ := ih hold
      exact ⟨p, by simp [hp], hmention, s, f, by simp [hmatched]⟩
    · obtain rfl := List.mem_singleton.mp hlast
      obtain rfl := Option.some.inj (he.symm.trans he')
      exact ⟨part, by simp, hpart, pStart, pFinish, by simp [hid]⟩

/-- The path has the labels of the relationship and no fields. -/
theorem Part.path_eq {part : Part} (hmention : part.mention = .entity key)
    (he : store.get? key = some e) (hid : e.id = some id) (start finish : NodePattern) :
    part.path m store start finish = .path start ⟨part.name, e.labels, []⟩ finish := by
  have hlabels : part.mention.labels store = e.labels := by
    rw [hmention, Endpoint.labels_of_same rfl he]
  have hidentity : part.mention.identity? store = some id := by
    rw [hmention, Endpoint.identity?_of_same rfl he, hid]
  rw [path, hlabels, hidentity]
  rfl

/-! ### Deletes -/

theorem collectDeletion_targets_subset {deletion collected : Deletion}
    (h : (collectDeletion store names deletion keys).outcome = .ok collected) :
    deletion.targets ⊆ collected.targets := by
  induction keys generalizing store names deletion with
  | nil =>
    obtain rfl := Except.ok.inj h
    exact List.Subset.refl _
  | cons k rest ih =>
    rw [collectDeletion] at h
    cases he : store.get? k with
    | none => simp [he] at h
    | some e =>
      simp only [he] at h
      split at h
      · exact ih h
      · exact List.Subset.trans (List.subset_append_left ..) (ih h)

/-- A relationship with an id becomes a target with its labels. -/
theorem collectDeletion_matches {deletion collected : Deletion}
    (h : (collectDeletion store names deletion keys).outcome = .ok collected) (hkey : key ∈ keys)
    (he : store.get? key = some e) (hrel : e.isNode = false) (hid : e.id = some id) :
    ∃ name param, (collectDeletion store names deletion keys).store.nameOf? key = some name ∧
      (.betweenAny ⟨name, e.labels, []⟩, ⟨name, param⟩) ∈ collected.targets := by
  induction keys generalizing store names deletion e with
  | nil => exact absurd hkey List.not_mem_nil
  | cons k rest ih =>
    by_cases hk : key = k
    · -- the head of the list is collected, and what follows leaves its variable alone
      subst hk
      obtain ⟨name, names₁, hdefine⟩ := names.exists_define e
      rw [collectDeletion] at h ⊢
      have hbound : (e.bindVariable name).id = some id := hid
      simp only [he, hdefine, hbound] at h ⊢
      have hname : (store.modify key fun _ => e.bindVariable name).nameOf? key = some name :=
        Store.nameOf?_modify_self he _
      let param := (names₁.paramFor (e.bindVariable name) "id").1
      have htarget : (.betweenAny ⟨name, e.labels, []⟩, ⟨name, param⟩) ∈
          (deletion.add name param (e.bindVariable name) id).targets := by
        have hbetween : (e.bindVariable name).isNode = false := hrel
        refine List.mem_append_right _ (List.mem_singleton.mpr ?_)
        rw [hbetween]
        rfl
      exact ⟨name, param, (collectDeletion_hands_out _ _ _ rest).keeps key name hname,
        collectDeletion_targets_subset h htarget⟩
    · have hrest : key ∈ rest := (List.mem_cons.mp hkey).resolve_left hk
      rw [collectDeletion] at h ⊢
      cases he' : store.get? k with
      | none => simp [he'] at h
      | some e' =>
        obtain ⟨name, names₁, hdefine⟩ := names.exists_define e'
        have hkeep : (store.modify k fun _ => e'.bindVariable name).get? key = some e := by
          rw [Store.get?_modify_of_ne store hk]
          exact he
        simp only [he', hdefine] at h ⊢
        cases hid' : (e'.bindVariable name).id with
        | none =>
          simp only [hid'] at h ⊢
          exact ih h hrest hkeep hrel hid
        | some id' =>
          simp only [hid'] at h ⊢
          exact ih h hrest hkeep hrel hid

/-! ### Both -/

/-- Every accepted save of the entity matches it between its ends by these labels, and every delete
matches it by them between any nodes. -/
def Store.MatchesAs (store : Store) (key : EntityKey) (labels : List String) : Prop :=
  ∀ names, store.NamedBy names → ∀ keys, key ∈ keys →
    (∀ m, Batch.check store keys = .ok () →
      (composeSave m store names keys).outcome =
          .ok (Batch.draft m store names keys).clauses.toStatement ∧
        ∃ name start finish, (composeSave m store names keys).store.nameOf? key = some name ∧
          .path start ⟨name, labels, []⟩ finish ∈
            (Batch.draft m store names keys).clauses.matched) ∧
    ∀ detach statement, (composeDelete store names keys detach).outcome = .ok statement →
      ∃ (deletion : Deletion) (name param : String), statement = deletion.toStatement? ∧
        (composeDelete store names keys detach).store.nameOf? key = some name ∧
        (.betweenAny ⟨name, labels, []⟩, ⟨name, param⟩) ∈ deletion.targets

/-- A relationship with an id is matched by its labels. They stand in the pattern next to the
condition on the id, so that a stored relationship of another type is not found although the id is
right. -/
theorem Store.matchesAs (he : store.get? key = some e) (hrel : e.isNode = false)
    (hid : e.id = some id) : store.MatchesAs key e.labels := by
  intro names hnamed keys hkey
  refine ⟨fun m hok => ?_, fun detach statement hstatement => ?_⟩
  · obtain ⟨parts, h⟩ := Batch.exists_writes (m := m) hnamed hok
    obtain ⟨part, hpart, hmention, start, finish, hmatched⟩ :=
      h.drawn.matches_relationship hkey he hrel hid
    rw [Part.path_eq hmention he hid] at hmatched
    rw [Batch.composeSave_eq hok]
    exact ⟨rfl, part.name, start, finish, h.follows.entity part hpart key hmention, hmatched⟩
  · cases hcollected : (collectDeletion store names {} keys).outcome with
    | error err => simp [composeDelete, hcollected, Except.map] at hstatement
    | ok deletion =>
      obtain ⟨name, param, hname, htarget⟩ :=
        collectDeletion_matches hcollected hkey he hrel hid
      refine ⟨deletion, name, param, ?_, hname, htarget⟩
      rw [composeDelete, hcollected] at hstatement
      exact (Except.ok.inj hstatement).symm

end GraphMapping
