import GraphMapping.Proofs.Property.Tracking

/-!
# Going back to the snapshot

Resetting goes through the slots that are there and gives each its baseline again. Nothing removes a
property that was taken on since the commit. It has null for a baseline, which is read as zero or
false by kinds that have no null. So the values of the last commit are all restored, and next to
them stand the properties that came after it, some of them with a value that was never assigned.

## Main definitions

* `Bag.TakesOn`: a property that is there now and was not there before.

## Main results

* `Property.Committed.value_reset`: a property that was there at the commit is restored.
* `Bag.get?_reset_of_takesOn`: one that was not there is left behind.
* `Bag.reset_restores_iff`: what resetting restores.
* `Bag.reset_leaves_zero`: a zero that is left behind.
-/

namespace GraphMapping

/-! ### Kinds without null -/

/-- Both sides agree on whether a kind has null. The kinds that have none show something of their
own in its place, which is how a property without a value can have data. -/
theorem Kind.render_null_eq_null_iff (kind : Kind) (side : Side) :
    kind.render .null side = .null ↔ kind.toNative .null = .null := by
  cases side with
  | native => rfl
  | graph =>
    cases kind <;>
      simp [render, toGraph, toNative, textOf?, integerOf?, floatOf?, booleanOf?, dateTimeOf?]

/-! ### One property -/

namespace Property

variable {p p₀ : Property} {m m' : Moment}

theorem Committed.reset (h : p.Committed p₀) : p.reset.Committed p₀ :=
  ⟨h.kind, h.standard, h.baseline⟩

/-- What was there at the commit shows the same on both sides after going back, at every moment. -/
theorem Committed.value_reset (h : p.Committed p₀)
    (hconstant : ∀ s, p₀.standard = some s → s.IsConstant) (m m' : Moment) (side : Side) :
    p.reset.value m side = p₀.value m' side := by
  have hraw : p.reset.raw m = p₀.raw m' := (p.raw_reset m).trans (h.baseline m').symm
  have hstandard : p.reset.standard.elim .null (Source.resolve m) =
      p₀.standard.elim .null (Source.resolve m') := by
    rw [h.reset.standard]
    cases hs : p₀.standard with
    | none => rfl
    | some s => exact hconstant s hs m m'
  have hresolved : p.reset.resolved m = p₀.resolved m' := by
    rw [resolved, resolved, hraw, hstandard]
  rw [value, value, hresolved, h.reset.kind]

/-- A property without baseline and default shows null after going back. -/
theorem value_reset_of_new (hbaseline : p.baseline = .null) (hstandard : p.standard = none)
    (m : Moment) (side : Side) : p.reset.value m side = p.kind.render .null side := by
  have hresolved : p.reset.resolved m = .null :=
    (resolved_of_standard_eq_none (p := p.reset) hstandard).trans ((p.raw_reset m).trans hbaseline)
  rw [value, hresolved]
  rfl

end Property

/-! ### Bags -/

namespace Bag

variable {bag bag' : Bag} {name : String} {p : Property} {m₀ : Moment} {edits : List Edit}

/-- A property that is there in the second bag, and nothing is there in the first one. -/
def TakesOn (bag bag' : Bag) (name : String) (p : Property) : Prop :=
  bag.properties.get? name = none ∧ bag'.properties.get? name = some p

/-- What was taken on since the commit is left behind as null, and shows as what its kind makes
of that. -/
theorem get?_reset_of_takesOn
    (h : (bag.commit m₀).TakesOn ((bag.commit m₀).editAll edits) name p) (m : Moment)
    (side : Side) : ∃ q, ((bag.commit m₀).editAll edits).reset.properties.get? name = some q ∧
      q.value m side = p.kind.render .null side := by
  have hnone : bag.properties.get? name = none := by
    have hcommit := h.1
    rw [get?_properties_commit] at hcommit
    exact Option.map_eq_none_iff.mp hcommit
  obtain ⟨hbaseline, hstandard⟩ := new_of_editAll hnone h.2
  refine ⟨p.reset, ?_, Property.value_reset_of_new hbaseline hstandard m side⟩
  rw [get?_properties_reset, h.2]
  rfl

/-- All other slots are as they were at the commit: empty, or with what shows the same. -/
theorem value_reset_of_not_takesOn
    (hconstant : ∀ name p, bag.properties.get? name = some p → ∀ s, p.standard = some s →
      s.IsConstant)
    (h : ∀ p, ¬ (bag.commit m₀).TakesOn ((bag.commit m₀).editAll edits) name p)
    (m m' : Moment) (side : Side) :
    (((bag.commit m₀).editAll edits).reset.properties.get? name).map (fun p => p.value m side) =
      ((bag.commit m₀).properties.get? name).map fun p => p.value m' side := by
  rw [get?_properties_reset]
  cases hq : bag.properties.get? name with
  | some q =>
    obtain ⟨p, hp, hcommitted⟩ := committed_of_editAll hq m₀ edits
    have hq₀ : (bag.commit m₀).properties.get? name = some (q.commit m₀) := by
      rw [get?_properties_commit, hq, Option.map_some]
    rw [hp, hq₀]
    exact congrArg some (hcommitted.value_reset (hconstant name q hq) m m' side)
  | none =>
    have hnone : (bag.commit m₀).properties.get? name = none := by
      rw [get?_properties_commit, hq, Option.map_none]
    have hedited : ((bag.commit m₀).editAll edits).properties.get? name = none :=
      Option.eq_none_iff_forall_ne_some.mpr fun p hp => h p ⟨hnone, hp⟩
    rw [hedited, hnone]
    rfl

/-- **What resetting restores.** Commit a bag whose defaults are constant, make any assignments to
it, and reset it. Then a name reads as right after the commit unless a property was taken on for it,
which stays and reads as what its kind makes of null. The data of a name is as it was on both sides,
unless this is a property whose kind has no null; and only without any such property is all of the
data as it was. -/
theorem reset_restores_iff
    (hconstant : ∀ name p, bag.properties.get? name = some p → ∀ s, p.standard = some s →
      s.IsConstant)
    (m₀ : Moment) (edits : List Edit) :
    let snapshot := bag.commit m₀
    let edited := snapshot.editAll edits
    (∀ name m m', edited.reset.get? m name = snapshot.get? m' name ↔
      ∀ p, ¬ snapshot.TakesOn edited name p) ∧
    (∀ name p, snapshot.TakesOn edited name p →
      ∀ m, edited.reset.get? m name = some (p.kind.toNative .null)) ∧
    (∀ name m m' side,
      (edited.reset.data m side).get? name = (snapshot.data m' side).get? name ↔
        ∀ p, snapshot.TakesOn edited name p → p.kind.toNative .null = .null) ∧
    (∀ m m' side, edited.reset.data m side = snapshot.data m' side ↔
      ∀ name p, snapshot.TakesOn edited name p → p.kind.toNative .null = .null) := by
  intro snapshot edited
  have hleft : ∀ name p, snapshot.TakesOn edited name p →
      ∀ m, edited.reset.get? m name = some (p.kind.toNative .null) := by
    intro name p hp m
    obtain ⟨q, hq, hvalue⟩ := get?_reset_of_takesOn hp m .native
    rw [get?, hq, Option.map_some, hvalue]
    rfl
  have hrestored : ∀ name, (∀ p, ¬ snapshot.TakesOn edited name p) → ∀ m m' side,
      (edited.reset.properties.get? name).map (fun p => p.value m side) =
        (snapshot.properties.get? name).map fun p => p.value m' side :=
    fun name hnot => value_reset_of_not_takesOn hconstant hnot
  have hdata : ∀ name m m' side,
      (edited.reset.data m side).get? name = (snapshot.data m' side).get? name ↔
        ∀ p, snapshot.TakesOn edited name p → p.kind.toNative .null = .null := by
    intro name m m' side
    rw [get?_data_eq, get?_data_eq]
    by_cases hnot : ∀ p, ¬ snapshot.TakesOn edited name p
    · rw [hrestored name hnot m m' side]
      exact iff_of_true rfl fun p hp => absurd hp (hnot p)
    · obtain ⟨p, hp⟩ := not_forall_not.mp hnot
      obtain ⟨q, hq, hvalue⟩ := get?_reset_of_takesOn hp m side
      have honly : (∀ p, snapshot.TakesOn edited name p → p.kind.toNative .null = .null) ↔
          p.kind.render .null side = .null := by
        rw [Kind.render_null_eq_null_iff]
        refine ⟨fun hall => hall p hp, fun hnull p' hp' => ?_⟩
        obtain rfl := Option.some.inj (hp'.2.symm.trans hp.2)
        exact hnull
      rw [honly, hq, hp.1, Option.map_some, hvalue, Option.map_none, Option.filter_none,
        Option.filter_eq_none_iff]
      simp
  refine ⟨fun name m m' => ?_, hleft, hdata, fun m m' side => ⟨fun hall name => ?_, fun hall => ?_⟩⟩
  · refine ⟨fun hsame p hp => ?_, fun hnot => hrestored name hnot m m' .native⟩
    have hnone : snapshot.get? m' name = none := by rw [get?, hp.1]; rfl
    rw [hleft name p hp m, hnone] at hsame
    cases hsame
  · exact (hdata name m m' side).mp (congrArg (Dict.get? · name) hall)
  · exact Dict.ext_get? fun name => (hdata name m m' side).mpr (hall name)

/-- A status is restored, while an age and a nickname that came later are left behind. The nickname
is null and does not show in the data; the age is zero, so that no data is what it was. -/
theorem reset_restores_iff_status :
    let edits : List Edit := [.assign "age" (.integer 5), .assign "status" (.string "closed"),
      .assign "nick" (.string "Ada")]
    let snapshot := statusBag.commit .epoch
    let reset := (snapshot.editAll edits).reset
    (∀ m m', reset.get? m "status" = snapshot.get? m' "status") ∧
      (∀ m, reset.get? m "age" = some (.integer 0)) ∧ (∀ m, reset.get? m "nick" = some .null) ∧
      (∀ m m' side, (reset.data m side).get? "nick" = (snapshot.data m' side).get? "nick") ∧
      ∀ m m' side, reset.data m side ≠ snapshot.data m' side := by
  intro edits snapshot reset
  obtain ⟨hkept, hleft, hname, hall⟩ :=
    reset_restores_iff statusBag_standard_isConstant .epoch edits
  refine ⟨fun m m' => (hkept "status" m m').mpr ?_, hleft "age" _ ⟨rfl, rfl⟩,
    hleft "nick" _ ⟨rfl, rfl⟩, fun m m' side => (hname "nick" m m' side).mpr ?_,
    fun m m' side hsame => ?_⟩
  · rintro p ⟨hnone, -⟩
    cases hnone
  · rintro p ⟨-, hp⟩
    obtain rfl := Option.some.inj hp
    rfl
  · exact nomatch (hall m m' side).mp hsame "age" _ ⟨rfl, rfl⟩

/-- An age that is assigned after the commit is zero after going back, and there was none. -/
theorem reset_leaves_zero :
    let snapshot := (Bag.empty true).commit .epoch
    let edited := snapshot.editAll [.assign "age" (.integer 5)]
    (snapshot.get? .epoch "age").isNone ∧ (snapshot.data .epoch .graph).contains "age" = false ∧
      ((edited.reset.get? .epoch "age").any (· == .integer 0)) = true ∧
      ((edited.reset.data .epoch .native).contains "age") = true ∧
      ((edited.reset.data .epoch .graph).contains "age") = true := by
  decide +kernel

end Bag

end GraphMapping
