import GraphMapping.Proofs.Statement.TraversalText
import GraphMapping.Proofs.Work.Settling

/-!
# Variables that are taken back

Statements are composed outside of a flush as well: all of them for a preview, and one for a
traversal. Composing gives variables to entities that have none. They are taken back right after,
from exactly these entities, so that the store is as it was before.

A preview counts on a copy of the names. A traversal counts anew, and may call its start what
another entity is called; nothing else is in its statement, and the variable is gone when it is
executed. For neither does it matter which variables there are in the store, and whether the
statements can be composed at all.

## Main results

* `Work.preview_store`: a preview leaves the store as it was.
* `composeTraversal_restored`: so does a traversal.
-/

namespace GraphMapping

variable {store store' : Store} {names names' : Names} {m : Moment}

/-- Taking back the variables that were handed out restores the store. An entity that had its
variable before keeps it, so it does not matter what was prepared earlier. -/
theorem Store.releaseUnbound_of_naming (h : Naming store names store' names') :
    store.releaseUnbound store' = store := by
  refine Store.ext_get? fun key => ?_
  rw [Store.releaseUnbound, Store.get?, List.getElem?_map]
  cases he : store.get? key with
  | none =>
    have hnone : (store.entities.zip store'.entities)[key.index]? = none := by
      rw [Store.get?, List.getElem?_eq_none_iff] at he
      rw [List.getElem?_eq_none_iff, List.length_zip]
      exact (Nat.min_le_left _ _).trans he
    rw [hnone]
    rfl
  | some e =>
    obtain ⟨e', he', hsame⟩ := h.get? he
    have hpair : (store.entities.zip store'.entities)[key.index]? = some (e, e') :=
      List.getElem?_zip_eq_some.mpr ⟨he, he'⟩
    rw [hpair, Option.map_some, Option.some.injEq]
    cases hname : e.queryVariable with
    | none =>
      -- without a variable an entity is what releasing leaves of it
      have hself : e.releaseVariable = e := Entity.eq_of_releaseVariable rfl hname.symm
      simp only [hname, Option.isNone_none, if_true]
      exact hsame.trans hself
    | some name =>
      have hkept : store'.nameOf? key = some name :=
        h.keeps key name ((Store.nameOf?_of_get? he).trans hname)
      rw [Store.nameOf?_of_get? he'] at hkept
      simp only [hname, Option.isNone_some, Bool.false_eq_true, if_false]
      exact Entity.eq_of_releaseVariable hsame (hkept.trans hname.symm)

/-! ### Previews -/

/-- Composing operations only hands out variables, also up to one that cannot be composed. -/
theorem composeAll_hands_out (m : Moment) (store : Store) (names : Names) (ops : List Operation) :
    Naming store names (composeAll m store names ops).store
      (composeAll m store names ops).names := by
  induction ops generalizing store names with
  | nil => exact .refl store names
  | cons op rest ih =>
    have hnaming := composeOperation_hands_out m store names op
    rw [composeAll]
    dsimp only
    split
    · exact hnaming
    · exact hnaming.trans (ih _ _)

theorem Work.preview_store (work : Work) (m : Moment) (store : Store) :
    (work.preview m store).2 = store :=
  Store.releaseUnbound_of_naming (composeAll_hands_out m store work.names work.operations)

/-! ### Traversals -/

/-- A traversal gives a variable to its start at most. -/
theorem composeTraversal_store (store : Store) (names : Names) (start : EntityKey) (t : Traversal)
    (other : String) :
    (composeTraversal store names start t other).store = store ∨
      ∃ e name names', store.get? start = some e ∧
        names.define e = (name, e.bindVariable name, names') ∧
        (composeTraversal store names start t other).store =
          store.modify start fun _ => e.bindVariable name := by
  cases he : store.get? start with
  | none =>
    rw [composeTraversal, he]
    exact .inl rfl
  | some e =>
    cases hrel : e.isRelationship with
    | true =>
      simp only [composeTraversal, he, hrel]
      exact .inl rfl
    | false =>
      obtain ⟨name, names', hdefine⟩ := names.exists_define e
      obtain ⟨k, n, names'', heq⟩ := composeTraversal_eq he hrel hdefine t other
      rw [heq]
      exact .inr ⟨e, name, names', rfl, hdefine, rfl⟩

/-- Taking back the variable of an entity restores a store where it had none. -/
theorem Store.modify_releaseVariable {key : EntityKey} (hnone : store.nameOf? key = none)
    (hother : ∀ other, other ≠ key → store'.get? other = store.get? other)
    (hself : (store'.get? key).map Entity.releaseVariable =
      (store.get? key).map Entity.releaseVariable) :
    store'.modify key Entity.releaseVariable = store := by
  refine Store.ext_get? fun other => ?_
  by_cases hkey : other = key
  · rw [hkey, Store.get?_modify_self, hself]
    cases he : store.get? key with
    | none => rfl
    | some e =>
      rw [Store.nameOf?, he] at hnone
      exact congrArg some (Entity.eq_of_releaseVariable rfl hnone.symm)
  · rw [Store.get?_modify_of_ne store' hkey, hother other hkey]

/-- Unless its start had a variable before, the variable is taken back, and the store is as it
was. -/
theorem composeTraversal_restored (store : Store) (names : Names) (start : EntityKey)
    (t : Traversal) (other : String) :
    let composed := composeTraversal store names start t other
    (if (store.get? start).any (·.queryVariable.isSome) then composed.store
      else composed.store.modify start Entity.releaseVariable) = store := by
  have hbound : (store.get? start).any (·.queryVariable.isSome) = (store.nameOf? start).isSome := by
    rw [Store.nameOf?]
    cases store.get? start <;> rfl
  rw [hbound]
  intro composed
  cases hname : store.nameOf? start with
  | none =>
    rw [Option.isSome_none, if_neg Bool.false_ne_true]
    rcases composeTraversal_store store names start t other with
      hsame | ⟨e, name, names', he, -, hmodify⟩
    · refine Store.modify_releaseVariable hname (fun _ _ => ?_) ?_
      · rw [hsame]
      · rw [hsame]
    · refine Store.modify_releaseVariable hname (fun k hk => ?_) ?_
      · rw [hmodify, Store.get?_modify_of_ne store hk]
      · rw [hmodify, Store.get?_modify_of_get? he, he]
        rfl
  | some own =>
    rw [Option.isSome_some, if_pos rfl]
    rcases composeTraversal_store store names start t other with
      hsame | ⟨e, name, names', he, hdefine, hmodify⟩
    · exact hsame
    · have hown : e.queryVariable = some own := (Store.nameOf?_of_get? he).symm.trans hname
      -- the start is called what it was called before
      rcases Names.define_cases hdefine with ⟨hkept, -⟩ | ⟨hnone, -, -⟩
      · refine hmodify.trans ?_
        rw [Entity.bindVariable_of_bound hkept, Store.modify_get? he]
      · exact absurd (hown.symm.trans hnone) (Option.some_ne_none own)

end GraphMapping
