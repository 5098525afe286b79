import Mathlib.Data.String.Basic
import GraphMapping.Entity.Store
import GraphMapping.Statement.Names

/-!
# Query variables

A variable is a letter for the kind of entity and a number, and names count how many have been
handed out. A fresh variable is therefore one that no entity can have, as long as every variable in
the store was handed out by the same names. `Store.NamedBy` is that condition together with the
distinctness that it is for.

Composing a statement changes a store in one way only: entities that had no variable get a fresh
one. `Naming` says this once, so that a statement of many steps is compared with its beginning by
transitivity.

## Main definitions

* `variableName`: the variable of a kind with a number.
* `Names.Issued`: the names have handed out the variable.
* `Store.nameOf?`, `Store.NamedBy`: the variable of a stored entity, and a store whose variables
  were handed out to distinct entities.
* `Naming`: variables have been handed out and nothing else has happened.

## Main results

* `variableName_inj`: different variables are different texts.
* `Naming.define`: giving an entity its variable.
* `Store.NamedBy.define`: distinctness is kept.
-/

namespace GraphMapping

/-! ### Variables as texts -/

/-- The variable of a kind with a number. -/
def variableName : EntityKind → Nat → String
  | .node, i => "n" ++ toString i
  | .relationship, i => "r" ++ toString i

/-- The letter in front of the number. -/
def EntityKind.letter : EntityKind → Char
  | .node => 'n'
  | .relationship => 'r'

theorem toList_variableName (kind : EntityKind) (i : Nat) :
    (variableName kind i).toList = kind.letter :: Nat.toDigits 10 i := by
  cases kind <;> simp [variableName, EntityKind.letter]

theorem toDigits_inj {i j : Nat} (h : Nat.toDigits 10 i = Nat.toDigits 10 j) : i = j := by
  have hvalue := congrArg (fun digits => Nat.ofDigitChars 10 digits 0) h
  simpa only [Nat.ofDigitChars_ten_toDigits] using hvalue

theorem variableName_inj {kind kind' : EntityKind} {i j : Nat}
    (h : variableName kind i = variableName kind' j) : kind = kind' ∧ i = j := by
  have hlist := congrArg String.toList h
  rw [toList_variableName, toList_variableName] at hlist
  obtain ⟨hletter, hdigits⟩ := List.cons.inj hlist
  refine ⟨?_, toDigits_inj hdigits⟩
  cases kind <;> cases kind' <;> first | rfl | exact absurd hletter (by decide)

/-! ### Names handed out -/

namespace Names

variable {names : Names} {name : String}

/-- How many variables of a kind have been handed out. -/
def count (names : Names) : EntityKind → Nat
  | .node => names.nodes
  | .relationship => names.relationships

/-- The names have handed out the variable. -/
def Issued (names : Names) (name : String) : Prop :=
  ∃ kind i, i < names.count kind ∧ name = variableName kind i

theorem fst_allocate (names : Names) (kind : EntityKind) :
    (names.allocate kind).1 = variableName kind (names.count kind) := by
  cases kind <;> rfl

theorem count_allocate (names : Names) (kind other : EntityKind) :
    (names.allocate kind).2.count other = names.count other + if other = kind then 1 else 0 := by
  cases kind <;> cases other <;> rfl

theorem Issued.allocate (h : names.Issued name) (kind : EntityKind) :
    (names.allocate kind).2.Issued name := by
  obtain ⟨kind', i, hlt, rfl⟩ := h
  refine ⟨kind', i, ?_, rfl⟩
  rw [count_allocate]
  omega

theorem issued_allocate (names : Names) (kind : EntityKind) :
    (names.allocate kind).2.Issued (names.allocate kind).1 := by
  refine ⟨kind, names.count kind, ?_, fst_allocate names kind⟩
  rw [count_allocate, if_pos rfl]
  omega

theorem not_issued_allocate (names : Names) (kind : EntityKind) :
    ¬ names.Issued (names.allocate kind).1 := by
  rintro ⟨kind', i, hlt, heq⟩
  rw [fst_allocate] at heq
  obtain ⟨rfl, rfl⟩ := variableName_inj heq
  omega

/-- Parameter names are counted apart from variables. -/
theorem Issued.congr {names' : Names} (h : names.Issued name)
    (hcount : ∀ kind, names'.count kind = names.count kind) : names'.Issued name := by
  obtain ⟨kind, i, hlt, rfl⟩ := h
  exact ⟨kind, i, hcount kind ▸ hlt, rfl⟩

theorem count_param (names : Names) (name typeName field : String) (kind : EntityKind) :
    (names.param name typeName field).2.count kind = names.count kind := by
  cases kind <;> rfl

end Names

/-! ### Variables in a store -/

namespace Store

variable {store : Store} {names : Names}

/-- The variable of a stored entity. -/
def nameOf? (store : Store) (key : EntityKey) : Option String :=
  (store.get? key).bind (·.queryVariable)

theorem nameOf?_of_get? {key : EntityKey} {e : Entity} (h : store.get? key = some e) :
    store.nameOf? key = e.queryVariable := by
  rw [nameOf?, h]
  rfl

/-- The variables of the store were handed out by these names, to distinct entities. -/
structure NamedBy (store : Store) (names : Names) : Prop where
  issued : ∀ key name, store.nameOf? key = some name → names.Issued name
  distinct : ∀ key key' name,
    store.nameOf? key = some name → store.nameOf? key' = some name → key = key'

theorem get?_releaseVariables (store : Store) (key : EntityKey) :
    store.releaseVariables.get? key = (store.get? key).map Entity.releaseVariable := by
  simp [releaseVariables, get?]

theorem nameOf?_releaseVariables (store : Store) (key : EntityKey) :
    store.releaseVariables.nameOf? key = none := by
  rw [nameOf?, get?_releaseVariables]
  cases store.get? key <;> rfl

/-- Without variables there is nothing to hand out. -/
theorem namedBy_of_nameOf?_eq_none (h : ∀ key, store.nameOf? key = none) (names : Names) :
    store.NamedBy names where
  issued key name hname := by simp [h key] at hname
  distinct key key' name hname := by simp [h key] at hname

theorem NamedBy.of_nameOf? {store' : Store} (h : store.NamedBy names)
    (hsame : ∀ key, store'.nameOf? key = store.nameOf? key) : store'.NamedBy names where
  issued key name hname := h.issued key name (hsame key ▸ hname)
  distinct key key' name hname hname' :=
    h.distinct key key' name (hsame key ▸ hname) (hsame key' ▸ hname')

/-- Storing an entity without a variable leaves the variables as they are. -/
theorem nameOf?_insert {e : Entity} (he : e.queryVariable = none) (key : EntityKey) :
    (store.insert e).2.nameOf? key = store.nameOf? key := by
  rw [nameOf?, nameOf?, get?, get?, Store.insert]
  by_cases hlt : key.index < store.entities.length
  · rw [List.getElem?_append_left hlt]
  · have hnone : store.entities[key.index]? = none := List.getElem?_eq_none (by omega)
    rw [List.getElem?_append_right (by omega), hnone]
    cases hindex : key.index - store.entities.length with
    | zero => simpa using he
    | succ n => simp

theorem nameOf?_modify_of_ne {key other : EntityKey} (h : other ≠ key) (f : Entity → Entity) :
    (store.modify key f).nameOf? other = store.nameOf? other := by
  rw [nameOf?, get?_modify_of_ne store h, nameOf?]

theorem nameOf?_modify_self {key : EntityKey} {e : Entity} (h : store.get? key = some e)
    (f : Entity → Entity) : (store.modify key f).nameOf? key = (f e).queryVariable := by
  simp [nameOf?, h]

end Store

/-! ### Handing out variables -/

/-- From the first store and names to the second ones, variables have been handed out and nothing
else has happened. -/
structure Naming (store : Store) (names : Names) (store' : Store) (names' : Names) : Prop where
  same : store'.releaseVariables = store.releaseVariables
  keeps : ∀ key name, store.nameOf? key = some name → store'.nameOf? key = some name
  issued : ∀ name, names.Issued name → names'.Issued name
  fresh : ∀ key name, store'.nameOf? key = some name →
    store.nameOf? key = some name ∨ ¬ names.Issued name

namespace Naming

variable {store store' store'' : Store} {names names' names'' : Names}

theorem refl (store : Store) (names : Names) : Naming store names store names :=
  ⟨rfl, fun _ _ h => h, fun _ h => h, fun _ _ h => .inl h⟩

theorem trans (h : Naming store names store' names') (h' : Naming store' names' store'' names'') :
    Naming store names store'' names'' where
  same := h'.same.trans h.same
  keeps key name hname := h'.keeps key name (h.keeps key name hname)
  issued name hissued := h'.issued name (h.issued name hissued)
  fresh key name hname := by
    rcases h'.fresh key name hname with hname | hnot
    · exact h.fresh key name hname
    · exact .inr fun hissued => hnot (h.issued name hissued)

theorem of_count (store : Store) (h : ∀ kind, names'.count kind = names.count kind) :
    Naming store names store names' :=
  ⟨rfl, fun _ _ h => h, fun _ hissued => hissued.congr h, fun _ _ h => .inl h⟩

theorem allocate (store : Store) (names : Names) (kind : EntityKind) :
    Naming store names store (names.allocate kind).2 :=
  ⟨rfl, fun _ _ h => h, fun _ hissued => hissued.allocate kind, fun _ _ h => .inl h⟩

/-- A variable that has been handed out to no entity stays so. -/
theorem nameOf?_ne (h : Naming store names store' names') {name : String}
    (hissued : names.Issued name) (hne : ∀ key, store.nameOf? key ≠ some name) (key : EntityKey) :
    store'.nameOf? key ≠ some name := by
  intro hname
  rcases h.fresh key name hname with hname | hnot
  · exact hne key hname
  · exact hnot hissued

/-- The stored entities are the same but for their variables. -/
theorem get? (h : Naming store names store' names') {key : EntityKey} {e : Entity}
    (he : store.get? key = some e) :
    ∃ e', store'.get? key = some e' ∧ e'.releaseVariable = e.releaseVariable := by
  have hsame : store'.releaseVariables.get? key = some e.releaseVariable := by
    rw [h.same, Store.get?_releaseVariables, he]
    rfl
  rw [Store.get?_releaseVariables] at hsame
  exact Option.map_eq_some_iff.mp hsame

end Naming

/-! ### Giving an entity its variable -/

theorem Entity.bindVariable_of_bound {e : Entity} {name : String}
    (h : e.queryVariable = some name) : e.bindVariable name = e := by
  cases e
  simpa [bindVariable] using h.symm

/-- An entity is known by its data and its variable. -/
theorem Entity.eq_of_releaseVariable {a b : Entity} (h : a.releaseVariable = b.releaseVariable)
    (hname : a.queryVariable = b.queryVariable) : a = b := by
  cases a
  cases b
  simp_all [releaseVariable]

namespace Naming

variable {store store' : Store} {names names' : Names}

/-- What is stored does not depend on the variables. -/
theorem isSome_get? (h : Naming store names store' names') (key : EntityKey) :
    (store'.get? key).isSome = (store.get? key).isSome := by
  have hsame := congrArg (fun s => (s.get? key).isSome) h.same
  simpa only [Store.get?_releaseVariables, Option.isSome_map] using hsame

/-- An entity with this variable is the one that was stored before, given the variable. -/
theorem get?_of_nameOf? (h : Naming store names store' names') {key : EntityKey} {e : Entity}
    {name : String} (he : store.get? key = some e) (hname : store'.nameOf? key = some name) :
    store'.get? key = some (e.bindVariable name) := by
  obtain ⟨e', he', hsame⟩ := h.get? he
  rw [Store.nameOf?_of_get? he'] at hname
  have heq : e' = e.bindVariable name := Entity.eq_of_releaseVariable hsame hname
  rw [he', heq]

end Naming

namespace Names

/-- Giving an entity its variable changes nothing else about it. -/
theorem exists_define (names : Names) (e : Entity) :
    ∃ name names', names.define e = (name, e.bindVariable name, names') := by
  cases hname : e.queryVariable with
  | some name =>
    refine ⟨name, names, ?_⟩
    simp only [define, hname, Entity.bindVariable_of_bound hname]
  | none =>
    refine ⟨(names.allocate e.kind).1, (names.allocate e.kind).2, ?_⟩
    simp only [define, hname]

/-- The variable is the entity's own or a fresh one. No third entity is concerned in either case,
which is all that the distinctness of variables rests on. -/
theorem define_cases {names names' : Names} {e bound : Entity} {name : String}
    (h : names.define e = (name, bound, names')) :
    e.queryVariable = some name ∧ names' = names ∨
      e.queryVariable = none ∧ name = (names.allocate e.kind).1 ∧
        names' = (names.allocate e.kind).2 := by
  cases hname : e.queryVariable with
  | some own =>
    simp only [define, hname, Prod.mk.injEq] at h
    exact .inl ⟨congrArg some h.1, h.2.2.symm⟩
  | none =>
    simp only [define, hname, Prod.mk.injEq] at h
    exact .inr ⟨rfl, h.1.symm, h.2.2.symm⟩

end Names

theorem Store.ext_get? {store store' : Store} (h : ∀ key, store.get? key = store'.get? key) :
    store = store' := by
  cases store with | mk entities =>
  cases store' with | mk entities' =>
  rw [Store.mk.injEq]
  exact List.ext_getElem? fun i => h ⟨i⟩

theorem Store.modify_get? {store : Store} {key : EntityKey} {e : Entity}
    (h : store.get? key = some e) : store.modify key (fun _ => e) = store := by
  refine Store.ext_get? fun other => ?_
  by_cases hother : other = key
  · rw [hother, Store.get?_modify_self, h]
    rfl
  · rw [Store.get?_modify_of_ne store hother]

section Define

variable {store : Store} {names names' : Names} {key : EntityKey} {e : Entity} {name : String}

/-- Only the variable of one entity changes, and data is compared without variables. -/
theorem Store.releaseVariables_modify_bindVariable (h : store.get? key = some e) (name : String) :
    (store.modify key fun _ => e.bindVariable name).releaseVariables = store.releaseVariables := by
  refine Store.ext_get? fun other => ?_
  rw [get?_releaseVariables, get?_releaseVariables]
  by_cases hother : other = key
  · rw [hother, get?_modify_self, h]
    rfl
  · rw [get?_modify_of_ne store hother]

/-- Giving an entity its variable hands out at most one variable. -/
theorem Naming.define (h : store.get? key = some e)
    (hdefine : names.define e = (name, e.bindVariable name, names')) :
    Naming store names (store.modify key fun _ => e.bindVariable name) names' := by
  have hself : (store.modify key fun _ => e.bindVariable name).nameOf? key = some name :=
    Store.nameOf?_modify_self h _
  refine ⟨Store.releaseVariables_modify_bindVariable h name, ?_, ?_, ?_⟩
  · intro other name' hname'
    by_cases hother : other = key
    · subst hother
      rcases Names.define_cases hdefine with ⟨hbound, -⟩ | ⟨hnone, -, -⟩
      · rw [hself, ← hname', Store.nameOf?, h]
        exact hbound.symm
      · simp [Store.nameOf?, h, hnone] at hname'
    · rwa [Store.nameOf?_modify_of_ne hother]
  · intro name' hissued
    rcases Names.define_cases hdefine with ⟨-, rfl⟩ | ⟨-, -, rfl⟩
    · exact hissued
    · exact hissued.allocate e.kind
  · intro other name' hname'
    by_cases hother : other = key
    · subst hother
      obtain rfl := Option.some.inj (hself.symm.trans hname')
      rcases Names.define_cases hdefine with ⟨hbound, -⟩ | ⟨-, rfl, -⟩
      · exact .inl ((Store.nameOf?_of_get? h).trans hbound)
      · exact .inr (names.not_issued_allocate e.kind)
    · rw [Store.nameOf?_modify_of_ne hother] at hname'
      exact .inl hname'

/-- The variables stay distinct when an entity is given one. A variable that was not handed out
before is no entity's, and an entity that has one keeps it. -/
theorem Store.NamedBy.define (hnamed : store.NamedBy names) (h : store.get? key = some e)
    (hdefine : names.define e = (name, e.bindVariable name, names')) :
    (store.modify key fun _ => e.bindVariable name).NamedBy names' := by
  have hnaming := Naming.define h hdefine
  have hself : (store.modify key fun _ => e.bindVariable name).nameOf? key = some name :=
    Store.nameOf?_modify_self h _
  -- no other entity has the variable: it was this entity's own, or it is fresh
  have hown : ∀ other, other ≠ key → store.nameOf? other ≠ some name := by
    intro other hother hname
    rcases Names.define_cases hdefine with ⟨hbound, -⟩ | ⟨-, rfl, -⟩
    · exact hother (hnamed.distinct other key name hname ((Store.nameOf?_of_get? h).trans hbound))
    · exact names.not_issued_allocate e.kind (hnamed.issued other _ hname)
  constructor
  case issued =>
    intro other name' hname'
    by_cases hother : other = key
    · subst hother
      obtain rfl := Option.some.inj (hself.symm.trans hname')
      rcases Names.define_cases hdefine with ⟨hbound, rfl⟩ | ⟨-, rfl, rfl⟩
      · exact hnamed.issued other name ((Store.nameOf?_of_get? h).trans hbound)
      · exact names.issued_allocate e.kind
    · rw [Store.nameOf?_modify_of_ne hother] at hname'
      exact hnaming.issued name' (hnamed.issued other name' hname')
  case distinct =>
    intro k k' name' hk hk'
    by_cases hkey : k = key
    · by_cases hkey' : k' = key
      · exact hkey.trans hkey'.symm
      · subst hkey
        obtain rfl := Option.some.inj (hself.symm.trans hk)
        rw [Store.nameOf?_modify_of_ne hkey'] at hk'
        exact absurd hk' (hown k' hkey')
    · by_cases hkey' : k' = key
      · subst hkey'
        obtain rfl := Option.some.inj (hself.symm.trans hk')
        rw [Store.nameOf?_modify_of_ne hkey] at hk
        exact absurd hk (hown k hkey)
      · rw [Store.nameOf?_modify_of_ne hkey] at hk
        rw [Store.nameOf?_modify_of_ne hkey'] at hk'
        exact hnamed.distinct k k' name' hk hk'

/-- More may be handed out without giving it to anyone, as it happens when a variable is made up for
a bare id. -/
theorem Store.NamedBy.mono (hnamed : store.NamedBy names)
    (h : ∀ name, names.Issued name → names'.Issued name) : store.NamedBy names' :=
  ⟨fun key name hname => h name (hnamed.issued key name hname), hnamed.distinct⟩

end Define

end GraphMapping
