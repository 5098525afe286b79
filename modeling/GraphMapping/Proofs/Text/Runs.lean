import Mathlib.Data.List.Basic
import Mathlib.Tactic.IntervalCases
import GraphMapping.Decimal.Read

/-!
# Runs of characters

A reader that takes the longest run of characters of one class gets back exactly what was written,
provided that what follows does not begin with such a character. The decimal digits of a number are
such a run, and they have no zero in front unless they are the zero.

## Main results

* `takeWhile_run`, `dropWhile_run`: a run is taken as a whole.
* `Decimal.le_ofDigitChars`: further digits do not make a number smaller.
* `Decimal.eq_zero_of_head?_toDigits`: the digits of a number have no zero in front.
-/

namespace GraphMapping

section Run

variable {p : Char → Bool} {run rest : List Char}

theorem takeWhile_run (hrun : ∀ c ∈ run, p c = true) (hrest : ∀ c ∈ rest.head?, p c = false) :
    (run ++ rest).takeWhile p = run := by
  rw [List.takeWhile_append_of_pos hrun]
  cases rest with
  | nil => exact List.append_nil run
  | cons c rest => rw [List.takeWhile_cons_of_neg (by simp [hrest c rfl]), List.append_nil]

theorem dropWhile_run (hrun : ∀ c ∈ run, p c = true) (hrest : ∀ c ∈ rest.head?, p c = false) :
    (run ++ rest).dropWhile p = rest := by
  rw [List.dropWhile_append_of_pos hrun]
  cases rest with
  | nil => rfl
  | cons c rest => exact List.dropWhile_cons_of_neg (by simp [hrest c rfl])

end Run

/-! ### Decimal digits -/

namespace Decimal

theorem isDigit_eq (c : Char) : isDigit c = c.isDigit := by
  have hclass : c.isDigit = (decide (c.val ≥ '0'.val) && decide (c.val ≤ '9'.val)) := rfl
  rw [hclass, isDigit]
  rfl

theorem isDigit_of_mem_toDigits {n : Nat} {c : Char} (h : c ∈ Nat.toDigits 10 n) :
    isDigit c = true := by
  rw [isDigit_eq]
  exact Nat.isDigit_of_mem_toDigits (by decide) (by decide) h

theorem digitsValue_eq (ds : List Char) : digitsValue ds = Nat.ofDigitChars 10 ds 0 := rfl

/-- Further digits do not make a number smaller. -/
theorem le_ofDigitChars (ds : List Char) (n : Nat) : n ≤ Nat.ofDigitChars 10 ds n := by
  induction ds generalizing n with
  | nil => exact Nat.le_refl n
  | cons d ds ih =>
    refine Nat.le_trans ?_ (ih (10 * n + (d.toNat - '0'.toNat)))
    omega

/-- Only the zero begins with one. -/
theorem eq_zero_of_head?_toDigits {n : Nat} (h : (Nat.toDigits 10 n).head? = some '0') : n = 0 := by
  induction n using Nat.strong_induction_on with
  | _ n ih =>
    rw [Nat.toDigits_eq_if (by decide)] at h
    split at h
    case isTrue hlt =>
      interval_cases n
      · rfl
      all_goals exact absurd h (by decide)
    case isFalse hge =>
      rw [List.head?_append_of_ne_nil _ Nat.toDigits_ne_nil] at h
      have hzero := ih (n / 10) (by omega) h
      omega

end Decimal

end GraphMapping
