import GraphMapping.Statement.Save

/-!
# Look-up statements

## Main definitions

* `composeLookup`: the statement that returns one entity by its id.
-/

namespace GraphMapping

/-- The clauses that return an entity by its id. -/
def lookupClauses (name param : String) (e : Entity) (id : Int64) : Clauses where
  matched := [if e.isNode then .node ⟨name, [], []⟩ else .betweenAny ⟨name, [], []⟩]
  conditions := [⟨name, param⟩]
  returned := [name]
  distinct := true
  params := Dict.empty.insert param (.integer id)

/-- The statement that returns a stored entity by its id. -/
def composeLookup (store : Store) (names : Names) (key : EntityKey) : Composed Statement :=
  match store.get? key with
  | none => ⟨.error (.compilation (.unknownEntity key)), store, names⟩
  | some e =>
    let (name, e, names) := names.define e
    let store := store.modify key fun _ => e
    match e.id with
    | none => ⟨.error (.argument (.noId e.typeName key)), store, names⟩
    | some id =>
      let (param, names) := names.paramFor e "id"
      ⟨.ok (lookupClauses name param e id).toStatement, store, names⟩

end GraphMapping
