import Mathlib.Data.List.Forall2

/-!
# Outcomes

A function that may fail is applied to a list in order, and the first failure is the failure of the
whole. So the whole succeeds exactly if the function does on every element.

## Main results

* `Except.isOk_iff`: success can be decided.
* `List.mapM_eq_ok_iff`: the results of the elements, one by one.
* `List.isOk_mapM_iff`: when there is no failure.
* `List.exists_of_mapM_eq_error`: a failure is that of an element.
* `List.forM_eq_ok_iff`, `List.forM_eq_error_iff`: success on every element, and the first failure.
-/

variable {ε α β : Type} {f : α → Except ε β}

theorem Except.isOk_iff {x : Except ε α} : x.isOk = true ↔ ∃ a, x = .ok a := by
  cases x with
  | error e => simp [Except.isOk, Except.toBool]
  | ok a => simp [Except.isOk, Except.toBool]

namespace List

theorem mapM_eq_ok_iff {l : List α} {results : List β} :
    l.mapM f = .ok results ↔ Forall₂ (fun a b => f a = .ok b) l results := by
  induction l generalizing results with
  | nil =>
    rw [mapM_nil, forall₂_nil_left_iff]
    exact ⟨fun h => (Except.ok.inj h).symm, fun h => congrArg Except.ok h.symm⟩
  | cons a rest ih =>
    rw [mapM_cons, forall₂_cons_left_iff]
    cases ha : f a with
    | error e => simp [bind, Except.bind]
    | ok b =>
      cases hrest : rest.mapM f with
      | error e =>
        simp only [bind, Except.bind, reduceCtorEq, false_iff]
        rintro ⟨b', tail, -, htail, -⟩
        exact nomatch hrest.symm.trans (ih.mpr htail)
      | ok bs =>
        simp only [bind, Except.bind, pure, Except.pure, Except.ok.injEq]
        constructor
        · rintro rfl
          exact ⟨b, bs, rfl, ih.mp hrest, rfl⟩
        · rintro ⟨b', tail, rfl, htail, rfl⟩
          rw [Except.ok.inj (hrest.symm.trans (ih.mpr htail))]

/-- There is no failure as a whole when there is none on an element. -/
theorem isOk_mapM_iff {l : List α} : (∃ results, l.mapM f = .ok results) ↔
    ∀ a ∈ l, ∃ b, f a = .ok b := by
  simp only [mapM_eq_ok_iff]
  induction l with
  | nil => simp
  | cons a rest ih =>
    rw [forall_mem_cons, ← ih]
    constructor
    · rintro ⟨results, h⟩
      obtain ⟨b, tail, hb, htail, -⟩ := forall₂_cons_left_iff.mp h
      exact ⟨⟨b, hb⟩, tail, htail⟩
    · rintro ⟨⟨b, hb⟩, tail, htail⟩
      exact ⟨b :: tail, .cons hb htail⟩

theorem exists_of_mapM_eq_error {l : List α} {e : ε} (h : l.mapM f = .error e) :
    ∃ a ∈ l, f a = .error e := by
  induction l with
  | nil => exact nomatch h
  | cons a rest ih =>
    rw [mapM_cons] at h
    cases ha : f a with
    | error e' =>
      rw [ha] at h
      obtain rfl := Except.error.inj h
      exact ⟨a, mem_cons_self, ha⟩
    | ok b =>
      cases hrest : rest.mapM f with
      | error e' =>
        rw [ha, hrest] at h
        obtain ⟨a', ha', herror⟩ := ih (hrest.trans h)
        exact ⟨a', mem_cons_of_mem _ ha', herror⟩
      | ok bs => simp [ha, hrest, bind, Except.bind, pure, Except.pure] at h

/-- There is no failure when there is none on an element. -/
theorem forM_eq_ok_iff {f : α → Except ε PUnit} {l : List α} :
    l.forM f = .ok ⟨⟩ ↔ ∀ a ∈ l, f a = .ok ⟨⟩ := by
  induction l with
  | nil => exact ⟨fun _ _ ha => absurd ha not_mem_nil, fun _ => rfl⟩
  | cons a rest ih =>
    rw [List.forM, forall_mem_cons, ← ih]
    cases ha : f a with
    | error e => simp [bind, Except.bind]
    | ok u => simp [bind, Except.bind]

/-- The failure is that of the first element with one. What comes behind this element is not tried,
so nothing is said about it. -/
theorem forM_eq_error_iff {f : α → Except ε PUnit} {l : List α} {e : ε} :
    l.forM f = .error e ↔ ∃ before a after, l = before ++ a :: after ∧
      (∀ b ∈ before, f b = .ok ⟨⟩) ∧ f a = .error e := by
  constructor
  · intro h
    induction l with
    | nil => exact nomatch h
    | cons a rest ih =>
      rw [List.forM] at h
      cases ha : f a with
      | error e' =>
        rw [ha] at h
        obtain rfl := Except.error.inj h
        exact ⟨[], a, rest, rfl, fun _ hb => absurd hb not_mem_nil, ha⟩
      | ok u =>
        rw [ha] at h
        obtain ⟨before, a', after, rfl, hbefore, ha'⟩ := ih h
        exact ⟨a :: before, a', after, rfl, forall_mem_cons.mpr ⟨ha, hbefore⟩, ha'⟩
  · rintro ⟨before, a, after, rfl, hbefore, ha⟩
    induction before with
    | nil => rw [nil_append, List.forM, ha]; rfl
    | cons b rest ih =>
      obtain ⟨hb, hrest⟩ := forall_mem_cons.mp hbefore
      rw [cons_append, List.forM, hb]
      exact ih hrest

end List
