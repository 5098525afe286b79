import GraphMapping.Entity.Basic
import GraphMapping.Proofs.Dict

/-!
# The slots of a bag

A bag is read slot by slot: what stands under a name after an operation depends only on what stood
there before and on the values for that name. Assignments leave the properties that are there in
place and change nothing but what is assigned to them; a slot that is empty may be taken by a
property of an inferred kind. Loading also drops inferred properties that no value is loaded for.

## Main definitions

* `Moment.epoch`: a moment for examples.
* `Property.Assigned`, `Bag.Assigned`: what assignments do to a slot, and to a bag.
* `Bag.Edit`, `Bag.editAll`: assignments by the application, one after the other.
* `Property.reload?`: what loading does to a slot.

## Main results

* `Bag.get?_data_eq`, `Bag.get?_data`, `Bag.get?_changed`: the views on data and changes, slot by slot.
* `Bag.assigned_editAll`: assignments in any number.
* `Bag.get?_load`: loading, slot by slot.
-/

namespace GraphMapping

/-! ### Views -/

/-- The clock stands at the start of 1970, and every reading is null. -/
def Moment.epoch : Moment := ⟨.epoch, fun _ => .null⟩

theorem Bag.get?_data_eq (bag : Bag) (m : Moment) (side : Side) (name : String) :
    (bag.data m side).get? name =
      ((bag.properties.get? name).map fun p => p.value m side).filter fun value => !value.isNull := by
  rw [data, Dict.get?_filter, Dict.get?_map]

/-- The data for one side is that of the properties with a value. A null is left out, so that data
do not tell a property that is null from one that is missing. -/
theorem Bag.get?_data {bag : Bag} {m : Moment} {side : Side} {name : String} {value : Value} :
    (bag.data m side).get? name = some value ↔
      ∃ p, bag.properties.get? name = some p ∧ p.value m side = value ∧ value.isNull = false := by
  rw [get?_data_eq, Option.filter_eq_some_iff, Option.map_eq_some_iff]
  constructor
  · rintro ⟨⟨p, hp, rfl⟩, hvalue⟩
    exact ⟨p, hp, rfl, by simpa using hvalue⟩
  · rintro ⟨p, hp, rfl, hvalue⟩
    exact ⟨⟨p, hp, rfl⟩, by simpa using hvalue⟩

/-- The changes are those of the properties that differ from their baseline. -/
theorem Bag.get?_changed {bag : Bag} {m : Moment} {name : String} {change : Change} :
    (bag.changed m).get? name = some change ↔
      ∃ p, bag.properties.get? name = some p ∧ p.isChanged m = true ∧ p.change m = change := by
  rw [changed, Dict.get?_map, Dict.get?_filter, Option.map_eq_some_iff]
  constructor
  · rintro ⟨p, hp, rfl⟩
    obtain ⟨hget, hchanged⟩ := Option.filter_eq_some_iff.mp hp
    exact ⟨p, hget, hchanged, rfl⟩
  · rintro ⟨p, hget, hchanged, rfl⟩
    exact ⟨p, Option.filter_eq_some_iff.mpr ⟨hget, hchanged⟩, rfl⟩

/-- A change of a property is reported when it differs from its baseline. -/
theorem Bag.contains_changed {bag : Bag} {m : Moment} {name : String} {p : Property}
    (h : bag.properties.get? name = some p) :
    (bag.changed m).contains name = p.isChanged m := by
  rw [Dict.contains, changed, Dict.get?_map, Dict.get?_filter, h]
  cases hchanged : p.isChanged m <;> simp [Option.filter, hchanged]

/-! ### Assignments -/

/-- What assignments make of a slot. A property is kept, with another assignment; an empty slot
stays empty or is taken by an undeclared property. -/
def Property.Assigned : Option Property → Option Property → Prop
  | some p, slot => ∃ assigned, slot = some { p with assigned }
  | none, slot => ∀ p, slot = some p → ∃ kind assigned, kind ≠ .timestamp ∧
      p = { declared kind with assigned, inferred := true }

namespace Property.Assigned

variable {slot slot' slot'' : Option Property}

theorem refl : ∀ slot : Option Property, Assigned slot slot
  | some p => ⟨p.assigned, rfl⟩
  | none => fun _ h => nomatch h

theorem trans (h : Assigned slot slot') (h' : Assigned slot' slot'') : Assigned slot slot'' := by
  cases slot with
  | some p =>
    obtain ⟨assigned, rfl⟩ := h
    exact h'
  | none =>
    cases slot' with
    | none => exact h'
    | some p =>
      obtain ⟨kind, assigned, hkind, rfl⟩ := h p rfl
      obtain ⟨assigned', rfl⟩ := h'
      intro p hp
      obtain rfl := Option.some.inj hp
      exact ⟨kind, assigned', hkind, rfl⟩

theorem assign (p : Property) (source : Source) : Assigned (some p) (some (p.assign source)) := by
  rw [Property.assign]
  split
  · exact refl _
  · exact ⟨some source, rfl⟩

/-- Inferred kinds are never timestamps, so that the new property can be assigned. -/
theorem ofAssignment {kind : Kind} {value : Value} (h : Kind.infer value = some kind)
    (source : Source) : Assigned none (some (ofAssignment kind source)) := by
  have hkind : kind ≠ .timestamp := by
    rintro rfl
    cases value <;> cases h
  intro p hp
  obtain rfl := Option.some.inj hp
  refine ⟨kind, some source, hkind, ?_⟩
  simp [Property.ofAssignment, Property.assign, declared, hkind]

end Property.Assigned

namespace Bag

variable {bag bag' bag'' : Bag} {name : String}

/-- From a bag to a later one, assignments have been made. -/
structure Assigned (bag bag' : Bag) : Prop where
  allowUndefined : bag'.allowUndefined = bag.allowUndefined
  slot : ∀ name, Property.Assigned (bag.properties.get? name) (bag'.properties.get? name)

namespace Assigned

theorem refl (bag : Bag) : bag.Assigned bag := ⟨rfl, fun _ => .refl _⟩

theorem trans (h : bag.Assigned bag') (h' : bag'.Assigned bag'') : bag.Assigned bag'' :=
  ⟨h'.allowUndefined.trans h.allowUndefined, fun name => (h.slot name).trans (h'.slot name)⟩

theorem declare {p : Property} (h : Property.Assigned (bag.properties.get? name) (some p)) :
    bag.Assigned (bag.declare name p) := by
  refine ⟨rfl, fun other => ?_⟩
  by_cases hother : other = name
  · subst hother
    rw [Bag.declare, Dict.get?_insert_self]
    exact h
  · rw [Bag.declare, Dict.get?_insert_of_ne _ hother]
    exact .refl _

theorem assignSource {source : Source} {sample : Value}
    (h : bag.assignSource name source sample = .ok bag') : bag.Assigned bag' := by
  rw [Bag.assignSource] at h
  cases hslot : bag.properties.get? name with
  | some p =>
    rw [hslot] at h
    obtain rfl := Except.ok.inj h
    exact declare (hslot ▸ .assign p source)
  | none =>
    rw [hslot] at h
    simp only at h
    split at h
    · cases hkind : Kind.infer sample with
      | none => simp [hkind] at h
      | some kind =>
        rw [hkind] at h
        obtain rfl := Except.ok.inj h
        exact declare (hslot ▸ .ofAssignment hkind source)
    · obtain rfl := Except.ok.inj h
      exact refl bag

theorem assignPairs {pairs : List (String × Value)} (h : bag.assignPairs pairs = .ok bag') :
    bag.Assigned bag' := by
  induction pairs generalizing bag with
  | nil =>
    obtain rfl := Except.ok.inj h
    exact refl bag
  | cons pair rest ih =>
    rw [Bag.assignPairs] at h
    cases hone : bag.assign pair.1 pair.2 with
    | error e => simp [hone] at h
    | ok bag₁ =>
      rw [hone] at h
      exact (assignSource hone).trans (ih h)

theorem assignAll {pairs : List (String × Value)} (h : bag.assignAll pairs = .ok bag') :
    bag.Assigned bag' := by
  rw [Bag.assignAll] at h
  split at h
  · cases h
  · exact assignPairs h

/-- Assignments that may be refused; if they are, nothing is assigned. -/
theorem getD {ε : Type} {x : Except ε Bag} (h : ∀ bag', x = .ok bag' → bag.Assigned bag') :
    bag.Assigned (x.toOption.getD bag) := by
  cases x with
  | error e => exact refl bag
  | ok bag' => exact h bag' rfl

end Assigned

/-- An assignment by the application. -/
inductive Edit where
  | assign (name : String) (value : Value)
  | assignProducer (m : Moment) (name : String) (producer : Producer)
  | assignAll (pairs : List (String × Value))

/-- The bag after an assignment. One that is refused changes nothing. -/
def edit (bag : Bag) : Edit → Bag
  | .assign name value => (bag.assign name value).toOption.getD bag
  | .assignProducer m name producer => (bag.assignProducer m name producer).toOption.getD bag
  | .assignAll pairs => (bag.assignAll pairs).toOption.getD bag

/-- The bag after assignments, one after the other. -/
def editAll (bag : Bag) (edits : List Edit) : Bag := edits.foldl edit bag

theorem assigned_edit (bag : Bag) (change : Edit) : bag.Assigned (bag.edit change) := by
  cases change with
  | assign name value => exact .getD fun _ h => .assignSource h
  | assignProducer m name producer => exact .getD fun _ h => .assignSource h
  | assignAll pairs => exact .getD fun _ h => .assignAll h

theorem assigned_editAll (bag : Bag) (edits : List Edit) : bag.Assigned (bag.editAll edits) := by
  induction edits generalizing bag with
  | nil => exact .refl bag
  | cons change rest ih => exact (bag.assigned_edit change).trans (ih (bag.edit change))

end Bag

/-! ### Loading -/

/-- The undeclared property that a loaded value becomes, if a kind can be inferred. -/
def Property.ofLoaded? (value : Value) : Option Property :=
  (Kind.infer value).map fun kind => (ofAssignment kind (.fixed value)).load value

/-- What a value is loaded into is inferred, and so is its kind. -/
theorem Property.of_ofLoaded? {value : Value} {p : Property} (h : ofLoaded? value = some p) :
    p.inferred = true ∧ Kind.infer value = some p.kind ∧ ∃ q : Property, p = q.load value := by
  obtain ⟨kind, hkind, rfl⟩ := Option.map_eq_some_iff.mp h
  have hsource : ∀ source, (ofAssignment kind source).inferred = true ∧
      (ofAssignment kind source).kind = kind := by
    intro source
    rw [ofAssignment, Property.assign]
    split <;> exact ⟨rfl, rfl⟩
  refine ⟨(hsource _).1, ?_, _, rfl⟩
  exact hkind.trans (congrArg some (hsource _).2.symm)

/-- What loading a value, or none, makes of a slot. An inferred property that gets no value goes, and
an open bag takes on a value that has no property. -/
def Property.reload? (allowUndefined : Bool) : Option Property → Option Value → Option Property
  | some p, value => if p.inferred && value.isNone then none else some (p.load value)
  | none, some value => if allowUndefined then ofLoaded? value else none
  | none, none => none

/-- Whatever is in a slot after loading has been loaded. -/
theorem Property.exists_of_reload? {allowUndefined : Bool} {slot : Option Property}
    {value : Option Value} {p : Property} (h : reload? allowUndefined slot value = some p) :
    ∃ q v, p = Property.load q v := by
  cases slot with
  | some q =>
    rw [reload?] at h
    split at h
    · cases h
    · exact ⟨q, value, (Option.some.inj h).symm⟩
  | none =>
    cases value with
    | none => cases h
    | some v =>
      rw [reload?] at h
      split at h
      · obtain ⟨-, -, q, hq⟩ := of_ofLoaded? h
        exact ⟨q, v, hq⟩
      · cases h

namespace Bag

variable {name : String}

/-- Taking on values adds properties for the names that have none. -/
theorem get?_takeOn (properties : Dict Property) {pairs : List (String × Value)}
    (hnodup : (pairs.map Prod.fst).Nodup) :
    (takeOn properties pairs).get? name =
      (properties.get? name).or ((Entries.lookup name pairs).bind Property.ofLoaded?) := by
  induction pairs generalizing properties with
  | nil => simp [takeOn, Entries.lookup]
  | cons pair rest ih =>
    obtain ⟨field, value⟩ := pair
    obtain ⟨hfresh, hrest⟩ := List.nodup_cons.mp hnodup
    have hnone : Entries.lookup field rest = none := Entries.lookup_eq_none_iff.mpr hfresh
    rw [takeOn, Entries.lookup]
    split
    · rename_i kind hcontains hkind
      have hempty : properties.get? field = none := by simpa [Dict.contains] using hcontains
      rw [ih _ hrest]
      by_cases hname : field = name
      · subst hname
        simp [hempty, Property.ofLoaded?, hkind]
      · rw [Dict.get?_insert_of_ne _ (Ne.symm hname), if_neg hname]
    · rename_i hnot
      rw [ih _ hrest]
      by_cases hname : field = name
      · subst hname
        rw [hnone, if_pos rfl]
        -- either there is a property already, or the value tells no kind
        cases hslot : properties.get? field with
        | some p => rfl
        | none =>
          have hkind : Kind.infer value = none := by
            cases hkind : Kind.infer value with
            | none => rfl
            | some kind => exact absurd hkind (hnot kind (by simp [Dict.contains, hslot]))
          simp [Property.ofLoaded?, hkind]
      · rw [if_neg hname]

theorem get?_properties_commit (bag : Bag) (m : Moment) (name : String) :
    (bag.commit m).properties.get? name = (bag.properties.get? name).map (Property.commit · m) := by
  rw [commit, Dict.get?_map]

theorem get?_properties_reset (bag : Bag) (name : String) :
    bag.reset.properties.get? name = (bag.properties.get? name).map Property.reset := by
  rw [reset, Dict.get?_map]

theorem get?_load (bag : Bag) (pairs : List (String × Value)) (name : String) :
    (bag.load pairs).properties.get? name =
      Property.reload? bag.allowUndefined (bag.properties.get? name)
        ((Dict.ofList pairs).get? name) := by
  let values := Dict.ofList pairs
  let kept := bag.properties.filter fun name p => !p.inferred || values.contains name
  have hloaded : (kept.map fun name p => p.load (values.get? name)).get? name =
      ((bag.properties.get? name).filter fun p => !p.inferred || values.contains name).map
        fun p => p.load (values.get? name) := by
    rw [Dict.get?_map, Dict.get?_filter]
  have hall : (bag.load pairs).properties.get? name =
      if bag.allowUndefined then
        (((bag.properties.get? name).filter fun p => !p.inferred || values.contains name).map
          fun p => p.load (values.get? name)).or ((values.get? name).bind Property.ofLoaded?)
      else ((bag.properties.get? name).filter fun p => !p.inferred || values.contains name).map
        fun p => p.load (values.get? name) := by
    rw [← hloaded, load]
    split
    · exact get?_takeOn _ values.nodup_names
    · rfl
  rw [hall]
  show _ = Property.reload? bag.allowUndefined (bag.properties.get? name) (values.get? name)
  cases bag.properties.get? name with
  | none =>
    cases values.get? name <;> cases bag.allowUndefined <;> rfl
  | some p =>
    cases hvalue : values.get? name <;> cases hinferred : p.inferred <;>
      cases bag.allowUndefined <;>
        simp [Option.filter, Dict.contains, Property.reload?, hvalue, hinferred]

end Bag

end GraphMapping
