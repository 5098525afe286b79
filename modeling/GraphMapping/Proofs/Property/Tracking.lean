import GraphMapping.Proofs.Entity.Settled
import GraphMapping.Proofs.Property.Slots

/-!
# What change tracking sees

An edit can be seen in two ways. The native data shows the value of a property, with its default in
the place of null. The changes compare what is assigned with the baseline, both coerced, and know no
defaults. As long as neither is null the two agree. But coercion makes of null what it makes of
values without sense for the kind: zero, false, or null again. So an edit between null and such a
value is no change. It shows in the data all the same when a default stood in for the null, or when
the property was not there before.

## Main definitions

* `Bag.Differs`: the data of a name is not what it was.
* `Property.Overlooks`: the edit of a property is no change.

## Main results

* `Bag.changed_iff_of_differs`: which differences in the data are reported as changes.
* `Bag.changed_omits_zero`: a new property that is zero is not reported.
-/

namespace GraphMapping

/-! ### Equality and null -/

theorem Value.isNull_eq_of_beq {a b : Value} (h : (a == b) = true) : a.isNull = b.isNull := by
  change beq a b = true at h
  cases a <;> cases b <;> simp_all [beq, isNull]

theorem Value.eq_null_of_beq {a : Value} (h : (a == null) = true) : a = null :=
  isNull_iff.mp (isNull_eq_of_beq h)

/-- Text is there for every value but null. -/
theorem Kind.toNative_string_eq_null_iff {value : Value} :
    string.toNative value = .null ↔ value = .null := by
  cases value <;> simp [toNative, textOf?]

theorem Kind.beq_toNative_string (value : Value) :
    (string.toNative value == string.toNative value) = true := by
  change Value.beq _ _ = true
  rw [toNative]
  cases textOf? value with
  | none => rfl
  | some s => simp [Value.beq]

namespace Bag

variable {bag bag' : Bag} {m m' : Moment} {name : String}

/-- The native data of a name is not equal to what it was, also when it came or went. -/
def Differs (bag : Bag) (m : Moment) (bag' : Bag) (m' : Moment) (name : String) : Prop :=
  ((bag'.data m' .native).get? name == (bag.data m .native).get? name) = false

instance : Decidable (bag.Differs m bag' m' name) := inferInstanceAs (Decidable (_ = false))

/-- Properties with equal values do not differ in the data. -/
theorem not_differs_of_beq {p p' : Property} (hp : bag.properties.get? name = some p)
    (hp' : bag'.properties.get? name = some p')
    (h : (p'.value m' .native == p.value m .native) = true) : ¬ bag.Differs m bag' m' name := by
  have hnull := Value.isNull_eq_of_beq h
  rw [Differs, get?_data_eq, get?_data_eq, hp, hp', Bool.not_eq_false]
  cases hisNull : (p.value m .native).isNull <;>
    simp [Option.filter, hnull, hisNull, h]

end Bag

/-! ### What is overlooked -/

namespace Property

variable {p : Property} {m m' : Moment}

/-- The edit of a property is no change: the value or the baseline is null, and the other one is
read as null is. -/
def Overlooks (p : Property) (m : Moment) : Prop :=
  (p.raw m = .null ∧ (p.kind.toNative .null == p.kind.toNative p.baseline) = true) ∨
    (p.baseline = .null ∧ (p.kind.toNative (p.raw m) == p.kind.toNative .null) = true)

theorem isChanged_eq_false_iff :
    p.isChanged m = false ↔ (p.kind.toNative (p.raw m) == p.kind.toNative p.baseline) = true := by
  rw [isChanged, change, bne, Bool.not_eq_false']

theorem Overlooks.isChanged (h : p.Overlooks m) : p.isChanged m = false := by
  rw [isChanged_eq_false_iff]
  rcases h with ⟨hnull, h⟩ | ⟨hnull, h⟩
  · rw [hnull]
    exact h
  · rw [hnull]
    exact h

/-- As only null is read as null by text, both sides of overlooked text are null. -/
theorem Overlooks.eq_null (h : p.Overlooks m) (hstring : p.kind = .string) :
    p.raw m = .null ∧ p.baseline = .null := by
  rw [Overlooks, hstring] at h
  rcases h with ⟨hraw, hequal⟩ | ⟨hbaseline, hequal⟩
  · have hread := Value.isNull_iff.mp (Value.isNull_eq_of_beq hequal).symm
    exact ⟨hraw, Kind.toNative_string_eq_null_iff.mp hread⟩
  · have hread : Kind.string.toNative (p.raw m) = .null := Value.eq_null_of_beq hequal
    exact ⟨Kind.toNative_string_eq_null_iff.mp hread, hbaseline⟩

/-- A value that is not null is shown as it is. -/
theorem resolved_of_raw_ne_null (h : p.raw m ≠ .null) : p.resolved m = p.raw m := by
  rw [resolved, if_neg fun hnull => h (Value.isNull_iff.mp hnull)]

/-- Without a default, null is shown as null. -/
theorem resolved_of_standard_eq_none (h : p.standard = none) : p.resolved m = p.raw m := by
  by_cases hnull : p.raw m = .null
  · rw [resolved, hnull, h]
    rfl
  · exact resolved_of_raw_ne_null hnull

/-- Where null is assigned, the default is shown. -/
theorem resolved_of_raw_eq_null (h : p.raw m = .null) :
    p.resolved m = p.standard.elim .null (Source.resolve m) := by
  rw [resolved, h]
  rfl

/-- A property and what it was at the last commit: the second one has the baseline of the first one
for a value, at every moment. -/
structure Committed (p p₀ : Property) : Prop where
  kind : p.kind = p₀.kind
  standard : p.standard = p₀.standard
  baseline : ∀ m, p₀.raw m = p.baseline

namespace Committed

variable {p₀ : Property} (h : p.Committed p₀)

include h

/-- Values that are both shown as they are tell of every edit. An edit can only be overlooked when
one of the two values is null and a default is shown in its place. -/
theorem beq_value (hresolved : p.resolved m = p.raw m) (hresolved₀ : p₀.resolved m' = p₀.raw m')
    (hunchanged : p.isChanged m = false) : (p.value m .native == p₀.value m' .native) = true := by
  change (p.kind.toNative (p.resolved m) == p₀.kind.toNative (p₀.resolved m')) = true
  rw [hresolved, hresolved₀, h.baseline, ← h.kind]
  exact isChanged_eq_false_iff.mp hunchanged

/-- An edit that is shown and is no change is overlooked. -/
theorem overlooks (hshown : (p.value m .native == p₀.value m' .native) = false)
    (hunchanged : p.isChanged m = false) : p.Overlooks m := by
  have hequal := isChanged_eq_false_iff.mp hunchanged
  by_cases hraw : p.raw m = .null
  · exact .inl ⟨hraw, hraw ▸ hequal⟩
  by_cases hbaseline : p.baseline = .null
  · exact .inr ⟨hbaseline, hbaseline ▸ hequal⟩
  · have hraw₀ : p₀.raw m' ≠ .null := (h.baseline m').symm ▸ hbaseline
    have hsame := h.beq_value (resolved_of_raw_ne_null hraw) (resolved_of_raw_ne_null hraw₀)
      hunchanged
    exact absurd (hsame.symm.trans hshown) Bool.noConfusion

/-- Only properties with a default are overlooked. -/
theorem standard_ne_none (hshown : (p.value m .native == p₀.value m' .native) = false)
    (hunchanged : p.isChanged m = false) : p.standard ≠ none := by
  intro hnone
  have hresolved₀ : p₀.resolved m' = p₀.raw m' :=
    resolved_of_standard_eq_none (h.standard.symm.trans hnone)
  have hsame := h.beq_value (resolved_of_standard_eq_none hnone) hresolved₀ hunchanged
  exact absurd (hsame.symm.trans hshown) Bool.noConfusion

/-- A difference in text is never overlooked. Only null has no text, so two values that count as
unchanged are the same text, or both null with the same default in their place. -/
theorem kind_ne_string (hconstant : ∀ s, p.standard = some s → s.IsConstant)
    (hshown : (p.value m .native == p₀.value m' .native) = false) (hoverlooked : p.Overlooks m) :
    p.kind ≠ .string := by
  intro hstring
  have hnull := hoverlooked.eq_null hstring
  have hresolved : p.resolved m = p₀.resolved m' := by
    rw [resolved_of_raw_eq_null hnull.1,
      resolved_of_raw_eq_null ((h.baseline m').trans hnull.2), ← h.standard]
    cases hstandard : p.standard with
    | none => rfl
    | some s => exact hconstant s hstandard m m'
  have hsame : (p.value m .native == p₀.value m' .native) = true := by
    change (p.kind.toNative (p.resolved m) == p₀.kind.toNative (p₀.resolved m')) = true
    rw [hresolved, ← h.kind, hstring]
    exact Kind.beq_toNative_string _
  exact absurd (hsame.symm.trans hshown) Bool.noConfusion

end Committed

end Property

/-! ### Changes of a bag -/

namespace Bag

variable {bag : Bag} {m₀ m₁ m : Moment} {edits : List Edit} {name : String} {p : Property}

theorem committed_of_editAll {q : Property} (hq : bag.properties.get? name = some q) (m₀ : Moment)
    (edits : List Edit) :
    ∃ p, ((bag.commit m₀).editAll edits).properties.get? name = some p ∧
      p.Committed (q.commit m₀) := by
  have hq₀ : (bag.commit m₀).properties.get? name = some (q.commit m₀) := by
    rw [get?_properties_commit, hq, Option.map_some]
  have hslot := ((bag.commit m₀).assigned_editAll edits).slot name
  rw [hq₀] at hslot
  obtain ⟨assigned, hp⟩ := hslot
  exact ⟨_, hp, rfl, rfl, (bag.settled_commit m₀) name _ hq₀⟩

/-- A property that has come into being since has null for a baseline and no default. -/
theorem new_of_editAll (hnone : bag.properties.get? name = none)
    (hp : ((bag.commit m₀).editAll edits).properties.get? name = some p) :
    p.baseline = .null ∧ p.standard = none := by
  have hnone₀ : (bag.commit m₀).properties.get? name = none := by
    rw [get?_properties_commit, hnone, Option.map_none]
  have hslot := ((bag.commit m₀).assigned_editAll edits).slot name
  rw [hnone₀] at hslot
  obtain ⟨kind, assigned, hkind, rfl⟩ := hslot p hp
  exact ⟨rfl, if_neg hkind⟩

/-- A difference under a name that had no property is that of a property with a value. -/
theorem exists_of_differs_none (hnone : bag.properties.get? name = none)
    (h : (bag.commit m₀).Differs m₁ ((bag.commit m₀).editAll edits) m name) :
    ∃ p, ((bag.commit m₀).editAll edits).properties.get? name = some p ∧
      p.value m .native ≠ .null := by
  have hdata₀ : ((bag.commit m₀).data m₁ .native).get? name = none := by
    rw [get?_data_eq, get?_properties_commit, hnone]
    rfl
  rw [Differs, hdata₀] at h
  cases hdata : (((bag.commit m₀).editAll edits).data m .native).get? name with
  | none =>
    rw [hdata] at h
    cases h
  | some value =>
    obtain ⟨p, hp, rfl, hvalue⟩ := get?_data.mp hdata
    exact ⟨p, hp, fun hnull => by simp [hnull, Value.isNull] at hvalue⟩

/-- **What change tracking sees.** Commit a bag whose defaults are constant, and make any assignments
to it. If the native data of a name is then not what it was right after the commit, there is a
property of this name, and its change is reported unless it is overlooked: one of baseline and value
is null, and the other one is read as null is. This does not happen to text, and to other properties
that were there at the commit only if they have a default. -/
theorem changed_iff_of_differs
    (hconstant : ∀ name p, bag.properties.get? name = some p → ∀ s, p.standard = some s →
      s.IsConstant)
    (hdiffers : (bag.commit m₀).Differs m₁ ((bag.commit m₀).editAll edits) m name) :
    ∃ p, ((bag.commit m₀).editAll edits).properties.get? name = some p ∧
      ((((bag.commit m₀).editAll edits).changed m).contains name = true ↔ ¬ p.Overlooks m) ∧
      (p.Overlooks m → p.kind ≠ .string ∧ (bag.contains name = true → p.standard ≠ none)) := by
  -- what is overlooked is no change, so only the other direction is about the difference
  have hreport : ∀ p, ((bag.commit m₀).editAll edits).properties.get? name = some p →
      (p.isChanged m = false → p.Overlooks m) →
      ((((bag.commit m₀).editAll edits).changed m).contains name = true ↔ ¬ p.Overlooks m) := by
    intro p hp hmissed
    rw [contains_changed hp]
    constructor
    · intro hchanged hoverlooked
      exact absurd (hchanged.symm.trans hoverlooked.isChanged) Bool.noConfusion
    · intro hnot
      exact Bool.of_not_eq_false fun hunchanged => hnot (hmissed hunchanged)
  cases hq : bag.properties.get? name with
  | some q =>
    obtain ⟨p, hp, hcommitted⟩ := committed_of_editAll hq m₀ edits
    have hq₀ : (bag.commit m₀).properties.get? name = some (q.commit m₀) := by
      rw [get?_properties_commit, hq, Option.map_some]
    have hshown : (p.value m .native == (q.commit m₀).value m₁ .native) = false :=
      Bool.eq_false_iff.mpr fun hequal => not_differs_of_beq hq₀ hp hequal hdiffers
    refine ⟨p, hp, hreport p hp (hcommitted.overlooks hshown), fun hoverlooked => ⟨?_, fun _ => ?_⟩⟩
    · refine hcommitted.kind_ne_string (fun s hs => hconstant name q hq s ?_) hshown hoverlooked
      exact hcommitted.standard.symm.trans hs
    · exact hcommitted.standard_ne_none hshown hoverlooked.isChanged
  | none =>
    obtain ⟨p, hp, hvalue⟩ := exists_of_differs_none hq hdiffers
    obtain ⟨hbaseline, hstandard⟩ := new_of_editAll hq hp
    refine ⟨p, hp, hreport p hp fun hunchanged => ?_, fun hoverlooked => ⟨fun hstring => ?_, ?_⟩⟩
    · exact .inr ⟨hbaseline, hbaseline ▸ Property.isChanged_eq_false_iff.mp hunchanged⟩
    · -- text that is overlooked is null, and then it is not shown
      have hraw : p.raw m = .null := (hoverlooked.eq_null hstring).1
      refine hvalue ?_
      change p.kind.toNative (p.resolved m) = .null
      rw [Property.resolved_of_standard_eq_none hstandard, hraw, hstring]
      rfl
    · intro hcontains
      simp [contains, Dict.contains, hq] at hcontains

/-- A person with a status that is open by default, in a bag that takes on other properties. -/
def statusBag : Bag :=
  .ofDeclared [("status", (Property.declared .string).withDefault (.string "open"))] true

/-- The status is open by default, at every moment. -/
theorem statusBag_standard_isConstant (name : String) (p : Property)
    (hp : statusBag.properties.get? name = some p) (s : Source) (hs : p.standard = some s) :
    s.IsConstant := by
  have hmem : (name, p) ∈ [("status", (Property.declared .string).withDefault (.string "open"))] :=
    Dict.get?_eq_some_iff.mp hp
  obtain ⟨rfl, rfl⟩ := Prod.mk.inj (List.mem_singleton.mp hmem)
  obtain rfl := Option.some.inj hs
  exact fun _ _ => rfl

theorem changed_iff_of_differs_status :
    let edits : List Edit := [.assign "age" (.integer 0), .assign "status" (.string "closed")]
    let edited := (statusBag.commit .epoch).editAll edits
    (statusBag.commit .epoch).Differs .epoch edited .epoch "status" ∧
      ∃ p, edited.properties.get? "status" = some p ∧
        ((edited.changed .epoch).contains "status" = true ↔ ¬ p.Overlooks .epoch) ∧
        (p.Overlooks .epoch →
          p.kind ≠ .string ∧ (statusBag.contains "status" = true → p.standard ≠ none)) := by
  intro edits edited
  have hdiffers : (statusBag.commit .epoch).Differs .epoch edited .epoch "status" := by
    decide +kernel
  exact ⟨hdiffers, changed_iff_of_differs statusBag_standard_isConstant hdiffers⟩

/-- A new property that is zero shows in the data and is not reported as a change. -/
theorem changed_omits_zero :
    let bag := (Bag.empty true).commit .epoch
    let edited := bag.editAll [.assign "age" (.integer 0)]
    bag.Differs .epoch edited .epoch "age" ∧
      (edited.data .epoch .native).contains "age" = true ∧
      (edited.changed .epoch).contains "age" = false := by
  decide +kernel

end Bag

end GraphMapping
