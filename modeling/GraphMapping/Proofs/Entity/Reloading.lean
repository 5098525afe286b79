import GraphMapping.Proofs.Entity.Schemas
import GraphMapping.Proofs.Lifecycle.Restraint
import GraphMapping.Proofs.Property.Slots

/-!
# Reloading

Loading replaces all data, but it is loaded into the properties that are there. Declared properties
stay for good unless they are removed, with the kind and the default that they were declared with,
so what was assigned to them is forgotten. Inferred properties stay when there is a value for them,
and then the value is read through the kind that an earlier value had. Besides what was removed,
this is all that an entity carries over from its history when it is loaded again.

## Main definitions

* `Schema.without`: a schema without some of its declarations.
* `Property.Descends`, `Schema.Governs`: what a history makes of a slot, and of a bag.
* `Bag.Clings`: a value is loaded through an inferred kind that is left over.

## Main results

* `Entity.Command.governs`, `Entity.governs_foldl`: one command, and a history.
* `Property.Descends.reload_spec`: loading into a slot with a history and into a new one.
* `Entity.load_eq_fresh_iff`: what reloading depends on.
* `Entity.load_keeps_history`: a person that is not like a new one after loading.
-/

namespace GraphMapping

/-- The schema without the declarations of some names. -/
def Schema.without (schema : Schema) (names : List String) : Schema :=
  { schema with declared := schema.declared.filter (·.1 ∉ names) }

/-! ### Slots -/

namespace Property

variable {origin slot : Option Property}

/-- What a history makes of the slot of a declared property, or of a slot that none is declared for.
The declared one is there, with another assignment and another baseline; everything else that can be
there is inferred. -/
def Descends : Option Property → Option Property → Prop
  | some d, slot => d.inferred = false ∧
      ∃ assigned baseline, slot = some { d with assigned, baseline }
  | none, slot => ∀ p, slot = some p → p.inferred = true

/-- Only what is inferred is not declared. No command turns one into the other, so it can be told at
any time from the property itself, without its history. -/
theorem Descends.inferred_iff {p : Property} (h : Descends origin (some p)) :
    p.inferred = true ↔ origin = none := by
  cases origin with
  | none => exact ⟨fun _ => rfl, fun _ => h p rfl⟩
  | some d =>
    obtain ⟨hdeclared, assigned, baseline, heq⟩ := h
    obtain rfl := Option.some.inj heq
    simp [hdeclared]

theorem Descends.assigned {slot' : Option Property} (h : Descends origin slot)
    (h' : Assigned slot slot') : Descends origin slot' := by
  cases origin with
  | some d =>
    obtain ⟨hdeclared, assigned, baseline, rfl⟩ := h
    obtain ⟨assigned', rfl⟩ := h'
    exact ⟨hdeclared, assigned', baseline, rfl⟩
  | none =>
    cases slot with
    | some p =>
      obtain ⟨assigned', rfl⟩ := h'
      intro p' hp'
      obtain rfl := Option.some.inj hp'
      exact h p rfl
    | none =>
      intro p hp
      obtain ⟨kind, assigned, -, rfl⟩ := h' p hp
      rfl

/-- A change of what is assigned and of the baseline. -/
theorem Descends.map {f : Property → Property} (h : Descends origin slot)
    (hf : ∀ p, ∃ assigned baseline, f p = { p with assigned, baseline }) :
    Descends origin (slot.map f) := by
  cases origin with
  | some d =>
    obtain ⟨hdeclared, assigned, baseline, rfl⟩ := h
    obtain ⟨assigned', baseline', hp⟩ := hf { d with assigned, baseline }
    exact ⟨hdeclared, assigned', baseline', by rw [Option.map_some, hp]⟩
  | none =>
    intro p' hp'
    obtain ⟨p, hp, rfl⟩ := Option.map_eq_some_iff.mp hp'
    obtain ⟨assigned', baseline', heq⟩ := hf p
    rw [heq]
    exact h p hp

theorem Descends.reload {allowUndefined : Bool} {value : Option Value} (h : Descends origin slot) :
    Descends origin (reload? allowUndefined slot value) := by
  cases origin with
  | some d =>
    obtain ⟨hdeclared, assigned, baseline, rfl⟩ := h
    exact ⟨hdeclared, value.map .fixed, value.getD .null, by simp [reload?, load, hdeclared]⟩
  | none =>
    intro p' hp'
    cases slot with
    | some p =>
      rw [reload?] at hp'
      split at hp'
      · cases hp'
      · obtain rfl := Option.some.inj hp'
        exact h p rfl
    | none =>
      cases value with
      | none => cases hp'
      | some value =>
        rw [reload?] at hp'
        split at hp'
        · exact (of_ofLoaded? hp').1
        · cases hp'

end Property

/-! ### Histories -/

/-- The declared property of a name. -/
def Schema.declared? (schema : Schema) (name : String) : Option Property :=
  ((Bag.ofDeclared schema.declared schema.allowUndefined).properties.get? name).filter
    fun p => !p.inferred

namespace Schema

variable {schema : Schema} {bag bag' : Bag} {name : String}

theorem declared?_without (schema : Schema) (names : List String) (name : String) :
    (schema.without names).declared? name = if name ∈ names then none else schema.declared? name := by
  have hget : (Dict.ofList (schema.declared.filter (·.1 ∉ names))).get? name =
      if name ∈ names then none else (Dict.ofList schema.declared).get? name := by
    rw [Dict.get?_ofList_filter (fun name => name ∉ names)]
    simp
  rw [declared?, Bag.ofDeclared, without, hget]
  split <;> rfl

theorem without_without (schema : Schema) (names names' : List String) :
    (schema.without names).without names' = schema.without (names ++ names') := by
  rw [without, without, without, List.filter_filter]
  refine congrArg _ (List.filter_congr fun entry _ => ?_)
  simp [Bool.and_comm]

/-- The properties are the declared ones of the schema, and others that are inferred. -/
structure Governs (schema : Schema) (bag : Bag) : Prop where
  allowUndefined : bag.allowUndefined = schema.allowUndefined
  slot : ∀ name, Property.Descends (schema.declared? name) (bag.properties.get? name)

namespace Governs

theorem ofDeclared (schema : Schema) :
    schema.Governs (Bag.ofDeclared schema.declared schema.allowUndefined) := by
  refine ⟨rfl, fun name => ?_⟩
  rw [declared?]
  cases hslot : (Bag.ofDeclared schema.declared schema.allowUndefined).properties.get? name with
  | none => exact nofun
  | some p =>
    cases hinferred : p.inferred with
    | false =>
      have hfilter : (some p).filter (fun p => !p.inferred) = some p := by
        simp [Option.filter, hinferred]
      rw [hfilter]
      exact ⟨hinferred, p.assigned, p.baseline, rfl⟩
    | true => simp [Option.filter, hinferred, Property.Descends]

theorem assigned (h : schema.Governs bag) (h' : bag.Assigned bag') : schema.Governs bag' :=
  ⟨h'.allowUndefined.trans h.allowUndefined, fun name => (h.slot name).assigned (h'.slot name)⟩

theorem map {f : Property → Property} (h : schema.Governs bag)
    (hf : ∀ p, ∃ assigned baseline, f p = { p with assigned, baseline }) :
    schema.Governs { bag with properties := bag.properties.map fun _ p => f p } := by
  refine ⟨h.allowUndefined, fun name => ?_⟩
  rw [Dict.get?_map]
  exact (h.slot name).map hf

theorem load (h : schema.Governs bag) (pairs : List (String × Value)) :
    schema.Governs (bag.load pairs) := by
  refine ⟨h.allowUndefined, fun name => ?_⟩
  rw [Bag.get?_load]
  exact (h.slot name).reload

theorem without {names : List String} (h : schema.Governs bag)
    (hnone : ∀ name ∈ names, bag.properties.get? name = none) :
    (schema.without names).Governs bag := by
  refine ⟨h.allowUndefined, fun name => ?_⟩
  rw [declared?_without]
  split
  · rename_i hname
    rw [hnone name hname]
    exact nofun
  · exact h.slot name

theorem remove (h : schema.Governs bag) (name : String) :
    (schema.without [name]).Governs (bag.remove name) := by
  refine ⟨h.allowUndefined, fun other => ?_⟩
  rw [declared?_without, Bag.remove]
  by_cases hother : other = name
  · subst hother
    rw [if_pos (List.mem_singleton_self other), Dict.get?_erase_self]
    exact nofun
  · rw [if_neg (by simpa using hother), Dict.get?_erase_of_ne _ hother]
    exact h.slot other

end Governs

end Schema

namespace Entity

variable {schema : Schema} {e : Entity}

/-- The command is not an arbitrary change of the properties. -/
def Command.IsNamed : Command → Prop
  | changeProperties _ => False
  | _ => True

/-- The names of properties that a command removes. -/
def Command.removes : Command → List String
  | remove name => [name]
  | _ => []

theorem assigned_of_map {ε : Type} {f : Bag → Entity} {x : Except ε Bag}
    (hf : ∀ bag, (f bag).properties = bag) (hx : ∀ bag, x = .ok bag → e.properties.Assigned bag) :
    e.properties.Assigned ((x.map f).toOption.getD e).properties := by
  cases x with
  | error err => exact .refl e.properties
  | ok bag =>
    change e.properties.Assigned (f bag).properties
    rw [hf]
    exact hx bag rfl

theorem Command.governs {command : Command} (hnamed : command.IsNamed)
    (h : schema.Governs e.properties) :
    (schema.without command.removes).Governs (command.apply e).properties := by
  -- every command but a removal leaves the schema as it is
  have hall : schema.without [] = schema := by simp [Schema.without]
  cases command with
  | changeProperties => exact hnamed.elim
  | remove name =>
    rw [apply, Entity.remove]
    split
    · exact h.remove name
    · rename_i hnot
      refine h.without fun other hother => ?_
      obtain rfl := List.mem_singleton.mp hother
      simpa [Bag.contains, Dict.contains] using hnot
  | setId id => exact hall.symm ▸ h
  | setEndpoint role other =>
    have hsame : ((e.setEndpoint role other).toOption.getD e).properties = e.properties := by
      cases hshape : e.shape <;> cases role <;>
        simp [Entity.setEndpoint, hshape, Except.toOption]
    exact hall.symm ▸ hsame.symm ▸ h
  | assign name value =>
    exact hall.symm ▸ h.assigned (assigned_of_map (fun _ => rfl) fun _ => .assignSource)
  | assignProducer m name producer =>
    exact hall.symm ▸ h.assigned (assigned_of_map (fun _ => rfl) fun _ => .assignSource)
  | assignAll pairs =>
    exact hall.symm ▸ h.assigned (assigned_of_map (fun _ => rfl) fun _ => .assignAll)
  | load pairs => exact hall.symm ▸ h.load pairs
  | commit m => exact hall.symm ▸ h.map fun p => ⟨_, _, rfl⟩
  | resetProperties => exact hall.symm ▸ h.map fun p => ⟨_, _, rfl⟩

theorem governs_foldl {commands : List Command} (hnamed : ∀ command ∈ commands, command.IsNamed)
    (h : schema.Governs e.properties) :
    (schema.without (commands.flatMap Command.removes)).Governs
      (commands.foldl Command.apply e).properties := by
  induction commands generalizing schema e with
  | nil => simpa [Schema.without] using h
  | cons command rest ih =>
    obtain ⟨hcommand, hrest⟩ := List.forall_mem_cons.mp hnamed
    rw [List.flatMap_cons, ← Schema.without_without]
    exact ih hrest (Command.governs hcommand h)

end Entity

/-! ### Loading again -/

namespace Property

variable {origin slot : Option Property} {allowUndefined : Bool} {value : Option Value}
  {m m' : Moment}

/-- An inferred property reads a value through a kind that would not be inferred from it now. -/
def Clings (allowUndefined : Bool) (slot : Option Property) (value : Option Value) : Prop :=
  ∃ p v, slot = some p ∧ p.inferred = true ∧ value = some v ∧
    ¬ (allowUndefined = true ∧ Kind.infer v = some p.kind)

/-- Without a value, what is declared is emptied and all else goes. A declared property has a kind
and a default to keep, while an inferred one is there only because of its value. -/
theorem reload?_none (slot : Option Property) :
    reload? allowUndefined slot none =
      (slot.filter fun p => !p.inferred).map fun p => p.load none := by
  cases slot with
  | none => rfl
  | some p => cases hinferred : p.inferred <;> simp [reload?, Option.filter, hinferred]

/-- What is not inferred is loaded as if it were new, and so is what gets no value. -/
theorem Descends.reload_eq (h : Descends origin slot)
    (hnot : ¬ ∃ p v, slot = some p ∧ p.inferred = true ∧ value = some v) :
    reload? allowUndefined slot value =
      reload? allowUndefined (origin.map fun d => d.load none) value := by
  cases origin with
  | some d =>
    obtain ⟨hdeclared, assigned, baseline, rfl⟩ := h
    simp [reload?, load, hdeclared]
  | none =>
    cases slot with
    | none => rfl
    | some p =>
      have hinferred := h p rfl
      cases value with
      | none => simp [reload?, hinferred]
      | some v => exact absurd ⟨p, v, rfl, hinferred, rfl⟩ hnot

/-- A loaded value that is not null is shown as it is. -/
theorem value_load {p : Property} {v : Value} {side : Side} (hv : v.isNull = false) :
    (p.load (some v)).value m side = p.kind.render v side := by
  have hraw : (p.load (some v)).raw m = v := rfl
  rw [value, resolved, hraw, hv]
  rfl

/-- With a constant default, what is loaded is shown the same at every moment. -/
theorem value_load_congr {p : Property} (hconstant : ∀ s, p.standard = some s → s.IsConstant)
    (v : Option Value) (m m' : Moment) (side : Side) :
    (p.load v).value m side = (p.load v).value m' side := by
  have hraw : (p.load v).raw m = (p.load v).raw m' := by cases v <;> rfl
  have hstandard : (p.load v).standard.elim .null (Source.resolve m) =
      (p.load v).standard.elim .null (Source.resolve m') := by
    cases hs : (p.load v).standard with
    | none => rfl
    | some s => exact hconstant s hs m m'
  rw [value, resolved, hraw, hstandard]
  rfl

theorem isNull_of_infer {v : Value} {kind : Kind} (h : Kind.infer v = some kind) :
    v.isNull = false := by
  cases v <;> simp_all [Kind.infer, Value.isNull]

/-- What a new entity makes of a value does not depend on the moment. -/
theorem reload?_congr (hconstant : ∀ d, origin = some d → ∀ s, d.standard = some s → s.IsConstant)
    (m m' : Moment) (side : Side) :
    (reload? allowUndefined (origin.map fun d => d.load none) value).map (fun p => p.value m side) =
      (reload? allowUndefined (origin.map fun d => d.load none) value).map
        (fun p => p.value m' side) := by
  refine Option.map_congr fun p hp => ?_
  cases origin with
  | some d =>
    rw [Option.map_some, reload?] at hp
    split at hp
    · cases hp
    · obtain rfl := Option.some.inj hp
      exact value_load_congr (hconstant d rfl) value m m' side
  | none =>
    cases value with
    | none => cases hp
    | some v =>
      rw [Option.map_none, reload?] at hp
      split at hp
      · obtain ⟨-, hkind, q, rfl⟩ := of_ofLoaded? hp
        rw [value_load (isNull_of_infer hkind), value_load (isNull_of_infer hkind)]
      · cases hp

/-- What an empty slot makes of a value is what an inferred property makes of it, if its kind is
inferred again; else it has another kind, or there is none. -/
theorem reload?_empty (allowUndefined : Bool) (p : Property) (v : Value) :
    ((reload? allowUndefined none (some v)).map (fun q => q.kind) = some p.kind ↔
      allowUndefined = true ∧ Kind.infer v = some p.kind) ∧
    (allowUndefined = true → Kind.infer v = some p.kind → ∀ m m' side,
      (reload? allowUndefined none (some v)).map (fun q => q.value m' side) =
        some ((p.load (some v)).value m side)) := by
  cases allowUndefined with
  | false => simp [reload?]
  | true =>
    cases hloaded : ofLoaded? v with
    | none =>
      have hkind : Kind.infer v = none := Option.map_eq_none_iff.mp hloaded
      simp [reload?, hloaded, hkind]
    | some q =>
      obtain ⟨-, hkind, q', rfl⟩ := of_ofLoaded? hloaded
      have hnull := isNull_of_infer hkind
      rw [reload?, if_pos rfl, hloaded, hkind]
      refine ⟨by simp, fun _ hsame m m' side => ?_⟩
      have hkinds : q'.kind = p.kind := Option.some.inj hsame
      rw [Option.map_some, value_load hnull, value_load hnull, hkinds]

/-- After a history, loading gives what it gives for a new entity, unless an inferred kind clings. -/
theorem Descends.reload_spec (h : Descends origin slot)
    (hconstant : ∀ d, origin = some d → ∀ s, d.standard = some s → s.IsConstant)
    (allowUndefined : Bool) (value : Option Value) :
    ((reload? allowUndefined slot value).map (fun p => p.kind) =
        (reload? allowUndefined (origin.map fun d => d.load none) value).map (fun p => p.kind) ↔
      ¬ Clings allowUndefined slot value) ∧
    (Clings allowUndefined slot value →
      (reload? allowUndefined slot value).map (fun p => p.kind) = slot.map fun p => p.kind) ∧
    (¬ Clings allowUndefined slot value → ∀ m m' side,
      (reload? allowUndefined slot value).map (fun p => p.value m side) =
        (reload? allowUndefined (origin.map fun d => d.load none) value).map
          (fun p => p.value m' side)) := by
  by_cases hleft : ∃ p v, slot = some p ∧ p.inferred = true ∧ value = some v
  · obtain ⟨p, v, rfl, hinferred, rfl⟩ := hleft
    obtain rfl := h.inferred_iff.mp hinferred
    obtain ⟨hkind, hvalue⟩ := reload?_empty allowUndefined p v
    have hloaded : reload? allowUndefined (some p) (some v) = some (p.load (some v)) := by
      simp [reload?]
    have hclings : Clings allowUndefined (some p) (some v) ↔
        ¬ (allowUndefined = true ∧ Kind.infer v = some p.kind) := by
      simp [Clings, hinferred]
    rw [hloaded, hclings, not_not, Option.map_none]
    refine ⟨eq_comm.trans hkind, fun _ => rfl, fun hagain m m' side => ?_⟩
    exact (hvalue hagain.1 hagain.2 m m' side).symm
  · have hnot : ¬ Clings allowUndefined slot value := by
      rintro ⟨p, v, hp, hinferred, hv, -⟩
      exact hleft ⟨p, v, hp, hinferred, hv⟩
    rw [h.reload_eq hleft]
    exact ⟨by simp [hnot], fun hclings => absurd hclings hnot, fun _ => reload?_congr hconstant⟩

end Property

/-! ### Entities -/

/-- The kinds of the properties. -/
def Bag.kinds (bag : Bag) : Dict Kind := bag.properties.map fun _ p => p.kind

/-- When the pairs are loaded, an inferred property reads its value through a kind that would not be
inferred from it now. -/
def Bag.Clings (bag : Bag) (pairs : List (String × Value)) (name : String) : Prop :=
  Property.Clings bag.allowUndefined (bag.properties.get? name) ((Dict.ofList pairs).get? name)

namespace Entity

variable {schema : Schema} {new new' : NewEntity} {e fresh : Entity} {commands : List Command}

/-- The slots of an entity that starts without values. -/
theorem get?_properties_of_makes (h : schema.Makes new fresh) (hnew : new.properties = [])
    (name : String) :
    fresh.properties.properties.get? name =
      (schema.declared? name).map fun d => d.load none := by
  rw [h.properties, hnew, Bag.get?_load]
  exact Property.reload?_none _

theorem governs_instantiate (h : schema.instantiate new = .ok e) : schema.Governs e.properties := by
  rw [(Schema.makes_of_instantiate h).properties]
  exact (Schema.Governs.ofDeclared schema).load _

/-- **What reloading depends on.** Take an entity of a schema with constant defaults through any
history, and load values. At every name this gives the kind and the data that it gives for a new
entity of the schema without the properties that the history removed, and for all names together the
same kinds and the same data; but where an inferred property gets a value that its kind would not be
inferred from now, the kind stays what it was. -/
theorem load_eq_fresh_iff
    (hconstant : ∀ entry ∈ schema.declared, ∀ s, entry.2.standard = some s → s.IsConstant)
    (he : schema.instantiate new = .ok e) (hnamed : ∀ command ∈ commands, command.IsNamed)
    (hfresh : (schema.without (commands.flatMap Command.removes)).instantiate new' = .ok fresh)
    (hnew : new'.properties = []) (pairs : List (String × Value)) :
    let held := commands.foldl Command.apply e
    (∀ name, (held.load pairs).properties.kinds.get? name =
        (fresh.load pairs).properties.kinds.get? name ↔ ¬ held.properties.Clings pairs name) ∧
    (∀ name, held.properties.Clings pairs name →
      (held.load pairs).properties.kinds.get? name = held.properties.kinds.get? name) ∧
    (∀ name, ¬ held.properties.Clings pairs name → ∀ m m' side,
      ((held.load pairs).data m side).get? name = ((fresh.load pairs).data m' side).get? name) ∧
    ((∀ name, ¬ held.properties.Clings pairs name) →
      (held.load pairs).properties.kinds = (fresh.load pairs).properties.kinds ∧
      ∀ m m' side, (held.load pairs).data m side = (fresh.load pairs).data m' side) := by
  intro held
  let left := schema.without (commands.flatMap Command.removes)
  have hheld : left.Governs held.properties := governs_foldl hnamed (governs_instantiate he)
  have hloaded : ∀ name, (held.load pairs).properties.properties.get? name =
      Property.reload? held.properties.allowUndefined (held.properties.properties.get? name)
        ((Dict.ofList pairs).get? name) := fun name => held.properties.get?_load pairs name
  have hnewly : ∀ name, (fresh.load pairs).properties.properties.get? name =
      Property.reload? held.properties.allowUndefined
        ((left.declared? name).map fun d => d.load none) ((Dict.ofList pairs).get? name) := by
    intro name
    have hopen : fresh.properties.allowUndefined = held.properties.allowUndefined :=
      (governs_instantiate hfresh).allowUndefined.trans hheld.allowUndefined.symm
    rw [← get?_properties_of_makes (Schema.makes_of_instantiate hfresh) hnew, ← hopen]
    exact fresh.properties.get?_load pairs name
  have hdeclared : ∀ name d, left.declared? name = some d → ∀ s, d.standard = some s →
      s.IsConstant := by
    intro name d hd
    have hmem : (name, d) ∈ left.declared :=
      Dict.mem_of_get?_ofList (Option.filter_eq_some_iff.mp hd).1
    exact hconstant (name, d) (List.mem_filter.mp hmem).1
  have hspec := fun name => (hheld.slot name).reload_spec (hdeclared name)
    held.properties.allowUndefined ((Dict.ofList pairs).get? name)
  have hkinds : ∀ name, (held.load pairs).properties.kinds.get? name =
      (fresh.load pairs).properties.kinds.get? name ↔ ¬ held.properties.Clings pairs name := by
    intro name
    rw [Bag.kinds, Bag.kinds, Dict.get?_map, Dict.get?_map, hloaded, hnewly]
    exact (hspec name).1
  have hdata : ∀ name, ¬ held.properties.Clings pairs name → ∀ m m' side,
      ((held.load pairs).data m side).get? name = ((fresh.load pairs).data m' side).get? name := by
    intro name hnot m m' side
    rw [data, data, Bag.get?_data_eq, Bag.get?_data_eq, hloaded, hnewly,
      (hspec name).2.2 hnot m m' side]
  refine ⟨hkinds, fun name hclings => ?_, hdata, fun hnone => ⟨?_, fun m m' side => ?_⟩⟩
  · rw [Bag.kinds, Bag.kinds, Dict.get?_map, Dict.get?_map, hloaded]
    exact (hspec name).2.1 hclings
  · exact Dict.ext_get? fun name => (hkinds name).mpr (hnone name)
  · exact Dict.ext_get? fun name => hdata name (hnone name) m m' side

/-- People have an age and may have other properties. -/
def personSchema : Schema :=
  ((Schema.node "Person").declare "age" (.declared .integer)).withUndefined true

/-- A new person. -/
def person : Entity where
  id := none
  typeName := "Person"
  labels := ["Person"]
  shape := .node
  properties := (Bag.ofDeclared personSchema.declared true).load []
  deleted := []
  queryVariable := none

/-- A person with a code for a text, next to a new one without an age. Loaded into both, the code is
a text in one and a number in the other; the age, which was removed, and the name make no difference.
-/
theorem load_eq_fresh_iff_person :
    let held := [Command.assign "code" (.string "a"), .assign "name" (.string "Ada"),
      .remove "age"].foldl Command.apply person
    let fresh : Entity := { person with properties := .empty true }
    let pairs := [("age", Value.string "7"), ("code", .integer 7), ("name", .string "Eve")]
    (held.load pairs).properties.kinds.get? "code" = some .string ∧
      (fresh.load pairs).properties.kinds.get? "code" ≠ some .string ∧
      (held.load pairs).properties.kinds.get? "age" =
        (fresh.load pairs).properties.kinds.get? "age" ∧
      ∀ m m' side, ((held.load pairs).data m side).get? "name" =
        ((fresh.load pairs).data m' side).get? "name" := by
  have hconstant : ∀ entry ∈ personSchema.declared, ∀ s, entry.2.standard = some s →
      s.IsConstant := by
    intro entry hentry s hs
    obtain rfl := List.mem_singleton.mp hentry
    cases hs
  have hnamed : ∀ command ∈ [Command.assign "code" (.string "a"), .assign "name" (.string "Ada"),
      .remove "age"], command.IsNamed := by
    simp [Command.IsNamed]
  intro held fresh pairs
  have he : personSchema.instantiate {} = .ok person := rfl
  have hfresh : (personSchema.without ["age"]).instantiate {} = .ok fresh := rfl
  obtain ⟨hkind, hclings, hdata, -⟩ := load_eq_fresh_iff hconstant he hnamed hfresh rfl pairs
  have hcode : held.properties.Clings pairs "code" :=
    ⟨_, .integer 7, rfl, rfl, rfl, fun h => nomatch h.2⟩
  have hage : ¬ held.properties.Clings pairs "age" := by
    rintro ⟨p, v, hslot, -⟩
    cases hslot
  have hname : ¬ held.properties.Clings pairs "name" := by
    rintro ⟨p, v, hslot, -, hvalue, hnot⟩
    obtain rfl := Option.some.inj hslot
    obtain rfl := Option.some.inj hvalue
    exact hnot ⟨rfl, rfl⟩
  have hcodeKind := hclings "code" hcode
  exact ⟨hcodeKind, fun hsame => (hkind "code").mp (hcodeKind.trans hsame.symm) hcode,
    (hkind "age").mpr hage, hdata "name" hname⟩

/-- A person with a code for a text and without an age, next to a new one: what is loaded into both
has other kinds and other data afterwards. -/
theorem load_keeps_history :
    let held := [Command.assign "code" (.string "a"), .remove "age"].foldl Command.apply person
    let pairs := [("age", Value.string "7"), ("code", .integer 7)]
    personSchema.instantiate {} = .ok person ∧
      (held.load pairs).properties.kinds.toList = [("age", .string), ("code", .string)] ∧
      (person.load pairs).properties.kinds.toList = [("age", .integer), ("code", .integer)] ∧
      ((held.load pairs).data .epoch .native == (person.load pairs).data .epoch .native) = false ∧
      ((held.load pairs).data .epoch .graph == (person.load pairs).data .epoch .graph) = false := by
  intro held pairs
  refine ⟨rfl, ?_, ?_, ?_, ?_⟩ <;> decide +kernel

end Entity

end GraphMapping
