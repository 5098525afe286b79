import GraphMapping.Proofs.Property.Slots

/-!
# Assigning a batch

A batch of assignments is checked before anything is assigned. The check looks at the bag as it was,
while the assignments add properties as they go; it foresees them all the same, because no name
occurs twice and an assignment concerns no other slot. So what passes the check is assigned to the
end, and for the same reason it does not matter in which order.

To see that nothing stays behind when a batch is refused, the bag is followed through the
assignments, refused or not.

## Main definitions

* `Bag.Refused`: an assignment that tells no kind for a property that is not there.
* `Property.assigned?`: what an assignment makes of a slot.
* `Bag.assignEach`, `Bag.assignBatch`: assign to the bag itself, which is there at any outcome.

## Main results

* `Bag.exists_assignPairs`: assignments slot by slot, in any order.
* `Bag.assignBatch_whole_or_none`: when a batch is refused, and what it does otherwise.
-/

namespace GraphMapping

variable {name : String} {value : Value}

/-! ### Refusals -/

/-- Null, lists and maps tell no kind. -/
theorem Kind.infer_eq_none_iff : infer value = none ↔
    value = .null ∨ (∃ items, value = .list items) ∨ ∃ entries, value = .map entries := by
  cases value <;> simp [infer]

/-- The bag would take on a property of this name, but the value tells no kind. -/
def Bag.Refused (bag : Bag) (name : String) (value : Value) : Prop :=
  bag.allowUndefined = true ∧ bag.contains name = false ∧
    (value = .null ∨ (∃ items, value = .list items) ∨ ∃ entries, value = .map entries)

theorem Bag.refuses_iff {bag : Bag} : bag.refuses name value = true ↔ bag.Refused name value := by
  simp only [refuses, Refused, Bool.and_eq_true, Bool.not_eq_true', Option.isNone_iff_eq_none,
    Kind.infer_eq_none_iff, and_assoc]

/-- In a sorted list the first entry that is picked has the least name. -/
theorem Entries.le_of_find?_eq_some {α : Type} {entries : List (String × α)} (h : Sorted entries)
    {p : String × α → Bool} {first entry : String × α} (hfirst : entries.find? p = some first)
    (hentry : entry ∈ entries) (hp : p entry = true) : first.1 ≤ entry.1 := by
  obtain ⟨-, before, after, rfl, hbefore⟩ := List.find?_eq_some_iff_append.mp hfirst
  rcases List.mem_append.mp hentry with hin | hin
  · have hnot := hbefore entry hin
    simp [hp] at hnot
  · rcases List.mem_cons.mp hin with rfl | hin
    · exact String.le_refl _
    · have hsorted : Sorted (first :: after) :=
        List.Pairwise.sublist ((List.sublist_append_right before _).map Prod.fst) h
      have hlt : first.1 < entry.1 :=
        (List.pairwise_cons.mp hsorted).1 entry.1 (List.mem_map_of_mem hin)
      exact String.not_lt.mp fun hgt => String.lt_irrefl _ (String.lt_trans hlt hgt)

/-! ### Assignments slot by slot -/

/-- What an assignment makes of a slot. An open bag takes on a value that has no property, if it
tells a kind. -/
def Property.assigned? (allowUndefined : Bool) : Option Property → Value → Option Property
  | some p, value => some (p.assign (.fixed value))
  | none, value =>
    if allowUndefined then (Kind.infer value).map (ofAssignment · (.fixed value)) else none

namespace Bag

variable {bag bag' : Bag} {pairs : List (String × Value)}

/-- Assigning a value that is not refused concerns one slot. -/
theorem exists_assign (h : bag.refuses name value = false) :
    ∃ bag', bag.assign name value = .ok bag' ∧ bag'.allowUndefined = bag.allowUndefined ∧
      bag'.properties.get? name =
        Property.assigned? bag.allowUndefined (bag.properties.get? name) value ∧
      ∀ other, other ≠ name → bag'.properties.get? other = bag.properties.get? other := by
  have hdeclare : ∀ p, (bag.declare name p).properties.get? name = some p ∧
      ∀ other, other ≠ name →
        (bag.declare name p).properties.get? other = bag.properties.get? other := fun p =>
    ⟨Dict.get?_insert_self .., fun other hother => Dict.get?_insert_of_ne _ hother _⟩
  rw [assign, assignSource]
  cases hslot : bag.properties.get? name with
  | some p => exact ⟨_, rfl, rfl, hdeclare _⟩
  | none =>
    cases hopen : bag.allowUndefined with
    | false => exact ⟨bag, rfl, hopen, hslot, fun _ _ => rfl⟩
    | true =>
      cases hkind : Kind.infer value with
      | none => simp [refuses, contains, Dict.contains, hslot, hopen, hkind] at h
      | some kind =>
        refine ⟨_, rfl, hopen, ?_, (hdeclare _).2⟩
        rw [(hdeclare _).1, Property.assigned?, hkind]
        rfl

/-- Whether an assignment is refused depends on its own slot only, so it makes no difference in
which order the names of a batch are tried. -/
theorem refuses_congr (hopen : bag'.allowUndefined = bag.allowUndefined)
    (hslot : bag'.properties.get? name = bag.properties.get? name) (value : Value) :
    bag'.refuses name value = bag.refuses name value := by
  rw [refuses, refuses, contains, contains, Dict.contains, Dict.contains, hopen, hslot]

/-- Assignments under different names are all made if none of them is refused at first, and each
slot is that of its own assignment. -/
theorem exists_assignPairs (hnodup : (pairs.map Prod.fst).Nodup)
    (h : ∀ pair ∈ pairs, bag.refuses pair.1 pair.2 = false) :
    ∃ bag', bag.assignPairs pairs = .ok bag' ∧ bag'.allowUndefined = bag.allowUndefined ∧
      ∀ name, bag'.properties.get? name = (Entries.lookup name pairs).elim
        (bag.properties.get? name)
        (Property.assigned? bag.allowUndefined (bag.properties.get? name)) := by
  induction pairs generalizing bag with
  | nil => exact ⟨bag, rfl, rfl, fun _ => rfl⟩
  | cons pair rest ih =>
    obtain ⟨field, value⟩ := pair
    obtain ⟨hfresh, hrest⟩ := List.nodup_cons.mp hnodup
    obtain ⟨hfirst, hothers⟩ := List.forall_mem_cons.mp h
    obtain ⟨bag₁, hassign, hopen₁, hself, hother⟩ := exists_assign hfirst
    -- the later assignments meet the slots that the check has seen
    have hne : ∀ pair ∈ rest, pair.1 ≠ field := fun pair hpair heq =>
      hfresh (List.mem_map.mpr ⟨pair, hpair, heq⟩)
    obtain ⟨bag', hpairs, hopen, hslots⟩ := ih hrest fun pair hpair =>
      (refuses_congr hopen₁ (hother _ (hne pair hpair)) _).trans (hothers pair hpair)
    refine ⟨bag', ?_, hopen.trans hopen₁, fun name => ?_⟩
    · rw [assignPairs, hassign]
      exact hpairs
    · rw [hslots, Entries.lookup, hopen₁]
      by_cases hname : field = name
      · subst hname
        rw [if_pos rfl, Entries.lookup_eq_none_iff.mpr hfresh]
        exact hself
      · rw [if_neg hname, hother name (Ne.symm hname)]

/-! ### Batches -/

/-- Assign the pairs to the bag itself, in order: what was assigned before a refusal stays. -/
def assignEach : Bag → List (String × Value) → Except PropertyError Unit × Bag
  | bag, [] => (.ok (), bag)
  | bag, (name, value) :: rest =>
    match bag.assign name value with
    | .ok bag => bag.assignEach rest
    | .error e => (.error e, bag)

/-- Assign a batch to the bag itself: the check comes first, then the assignments are made. -/
def assignBatch (bag : Bag) (pairs : List (String × Value)) : Except PropertyError Unit × Bag :=
  let values := Dict.ofList pairs
  match values.toList.find? fun entry => bag.refuses entry.1 entry.2 with
  | some (name, value) => (.error (.uninferable name value.typeName), bag)
  | none => bag.assignEach values.toList

theorem assignEach_of_ok (h : bag.assignPairs pairs = .ok bag') :
    bag.assignEach pairs = (.ok (), bag') := by
  induction pairs generalizing bag with
  | nil => rw [assignEach, Except.ok.inj h]
  | cons pair rest ih =>
    rw [assignPairs] at h
    rw [assignEach]
    cases hone : bag.assign pair.1 pair.2 with
    | error e => simp [hone] at h
    | ok bag₁ =>
      rw [hone] at h
      exact ih h

/-- A batch is refused by the check or assigned to the end, the same in any order. -/
theorem assignBatch_cases (bag : Bag) (pairs : List (String × Value)) :
    let values := Dict.ofList pairs
    (∃ first ∈ values.toList, bag.Refused first.1 first.2 ∧
        (∀ entry ∈ values.toList, bag.Refused entry.1 entry.2 → first.1 ≤ entry.1) ∧
        bag.assignBatch pairs = (.error (.uninferable first.1 first.2.typeName), bag) ∧
        bag.assignAll pairs = .error (.uninferable first.1 first.2.typeName)) ∨
      (∀ entry ∈ values.toList, ¬ bag.Refused entry.1 entry.2) ∧
        ∃ bag', bag.assignBatch pairs = (.ok (), bag') ∧ bag.assignAll pairs = .ok bag' ∧
          (∀ order, order.Perm values.toList → bag.assignPairs order = .ok bag') ∧
          bag'.allowUndefined = bag.allowUndefined ∧
          ∀ name, values.get? name = none →
            bag'.properties.get? name = bag.properties.get? name := by
  intro values
  cases hfind : values.toList.find? fun entry => bag.refuses entry.1 entry.2 with
  | some first =>
    refine .inl ⟨first, List.mem_of_find?_eq_some hfind, ?_, fun entry hentry hrefused => ?_, ?_, ?_⟩
    · have hpicked := List.find?_some hfind
      exact refuses_iff.mp hpicked
    · exact Entries.le_of_find?_eq_some values.sorted hfind hentry (refuses_iff.mpr hrefused)
    · simp only [assignBatch, values, hfind]
    · simp only [assignAll, values, hfind]
  | none =>
    have hok : ∀ entry ∈ values.toList, bag.refuses entry.1 entry.2 = false := fun entry hentry =>
      Bool.eq_false_iff.mpr (List.find?_eq_none.mp hfind entry hentry)
    obtain ⟨bag', hpairs, hopen, hslots⟩ := exists_assignPairs values.nodup_names hok
    refine .inr ⟨fun entry hentry hrefused => ?_, bag', ?_, ?_, fun order horder => ?_, hopen,
      fun name hname => ?_⟩
    · exact Bool.eq_false_iff.mp (hok entry hentry) (refuses_iff.mpr hrefused)
    · simp only [assignBatch, values, hfind]
      exact assignEach_of_ok hpairs
    · simp only [assignAll, values, hfind]
      exact hpairs
    · have hnodup : (order.map Prod.fst).Nodup :=
        (horder.map Prod.fst).nodup_iff.mpr values.nodup_names
      obtain ⟨bag₁, hassigned, hopen₁, hslots₁⟩ := exists_assignPairs hnodup fun entry hentry =>
        hok entry (horder.mem_iff.mp hentry)
      have hproperties : bag₁.properties = bag'.properties := Dict.ext_get? fun name => by
        rw [hslots₁, hslots, Entries.lookup_perm horder values.nodup_names]
      have hsame : bag₁ = bag' := by
        cases bag₁
        cases bag'
        exact (Bag.mk.injEq ..).mpr ⟨hproperties, hopen₁.trans hopen.symm⟩
      rw [hassigned, hsame]
    · rw [hslots, show Entries.lookup name values.toList = none from hname]
      rfl

/-- **A batch is assigned as a whole or not at all.** Of several values for a name the last one
counts. A batch is refused exactly when one of its assignments is, as the bag stands before it; then
the bag stays as it was, and the error names the least name with such a value. Otherwise the
assignments can be made one by one in any order, and what is not named stays as it was. -/
theorem assignBatch_whole_or_none (bag : Bag) (pairs : List (String × Value)) :
    let values := Dict.ofList pairs
    let batch := bag.assignBatch pairs
    (∀ name, values.get? name = Entries.lookup name pairs.reverse) ∧
      bag.assignAll pairs = batch.1.map (fun _ => batch.2) ∧
      ((∃ err, batch.1 = .error err) ↔
        ∃ name value, values.get? name = some value ∧ bag.Refused name value) ∧
      (∀ err, batch.1 = .error err → batch.2 = bag ∧
        ∃ name value, values.get? name = some value ∧ bag.Refused name value ∧
          (∀ other value', values.get? other = some value' → bag.Refused other value' →
            name ≤ other) ∧
          err = .uninferable name value.typeName) ∧
      (batch.1 = .ok () →
        (∀ order, order.Perm values.toList → bag.assignPairs order = .ok batch.2) ∧
          batch.2.allowUndefined = bag.allowUndefined ∧
          ∀ name, values.get? name = none →
            batch.2.properties.get? name = bag.properties.get? name) := by
  intro values batch
  refine ⟨Dict.get?_ofList pairs, ?_⟩
  rcases bag.assignBatch_cases pairs with ⟨⟨name, value⟩, hmem, hrefused, hleast, hbatch, hall⟩ |
    ⟨hnone, bag', hbatch, hall, horder, hopen, hslots⟩
  · have hget : values.get? name = some value := Dict.get?_eq_some_iff.mpr hmem
    rw [hall, show batch = _ from hbatch]
    refine ⟨rfl, ⟨fun _ => ⟨name, value, hget, hrefused⟩, fun _ => ⟨_, rfl⟩⟩, fun err herr => ?_,
      nofun⟩
    refine ⟨rfl, name, value, hget, hrefused, fun other value' hother => ?_,
      (Except.error.inj herr).symm⟩
    exact hleast (other, value') (Dict.get?_eq_some_iff.mp hother)
  · rw [hall, show batch = _ from hbatch]
    refine ⟨rfl, ⟨nofun, ?_⟩, nofun, fun _ => ⟨horder, hopen, hslots⟩⟩
    rintro ⟨name, value, hget, hrefused⟩
    exact absurd hrefused (hnone (name, value) (Dict.get?_eq_some_iff.mp hget))

/-- Of two values that tell no kind, the one with the lesser name is reported. -/
example : ((Bag.empty true).assignBatch
    [("tags", .list []), ("age", .integer 33), ("links", .null)]).1 =
      .error (.uninferable "links" "null") := by
  rfl

end Bag

end GraphMapping
