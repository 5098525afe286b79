import Mathlib.Data.List.DropRight
import GraphMapping.Text.Blank

/-!
# Blanks at the ends

What trimming leaves has no blank at either end, and only blanks have gone. This says which text is
left: there is one such part of a text, the empty one if there are only blanks.

## Main definitions

* `Trims`: the text without the blanks around it.

## Main results

* `trims_trimList`, `Trims.trimList_eq`: trimming leaves this text and no other.
-/

namespace GraphMapping.Text

variable {cs core back : List Char}

/-! ### Blanks at the end -/

theorem trimEnd_eq_rdropWhile (cs : List Char) : trimEnd cs = cs.rdropWhile isBlank := rfl

theorem trimEnd_append_blanks (h : ∀ c ∈ back, isBlank c = true) :
    trimEnd (cs ++ back) = trimEnd cs := by
  rw [trimEnd, List.reverse_append,
    List.dropWhile_append_of_pos fun c hc => h c (List.mem_reverse.mp hc), trimEnd]

theorem trimEnd_eq_self (h : ∀ c ∈ cs.getLast?, isBlank c = false) : trimEnd cs = cs := by
  rw [trimEnd_eq_rdropWhile, List.rdropWhile_eq_self_iff]
  intro hne
  rw [h _ (List.getLast_mem_getLast? hne)]
  exact Bool.false_ne_true

theorem exists_eq_trimEnd_append (cs : List Char) :
    ∃ back, cs = trimEnd cs ++ back ∧ ∀ c ∈ back, isBlank c = true :=
  ⟨cs.rtakeWhile isBlank, List.rdropWhile_append_rtakeWhile.symm,
    fun _ hc => List.mem_rtakeWhile_imp hc⟩

theorem isBlank_getLast?_trimEnd (cs : List Char) :
    ∀ c ∈ (trimEnd cs).getLast?, isBlank c = false := by
  intro c hc
  obtain ⟨hne, rfl⟩ := List.mem_getLast?_eq_getLast hc
  exact Bool.eq_false_iff.mpr (List.rdropWhile_last_not isBlank cs hne)

/-! ### Blanks at both ends -/

/-- The core is the text without the blanks around it. -/
structure Trims (cs core : List Char) : Prop where
  split : ∃ front back, cs = front ++ core ++ back ∧ (∀ c ∈ front, isBlank c = true) ∧
    ∀ c ∈ back, isBlank c = true
  head : ∀ c ∈ core.head?, isBlank c = false
  last : ∀ c ∈ core.getLast?, isBlank c = false

theorem trims_trimList (cs : List Char) : Trims cs (trimList cs) := by
  obtain ⟨back, hrest, hback⟩ := exists_eq_trimEnd_append (cs.dropWhile isBlank)
  refine ⟨⟨cs.takeWhile isBlank, back, ?_, fun c hc => List.mem_takeWhile_imp hc, hback⟩, ?_,
    isBlank_getLast?_trimEnd _⟩
  · rw [List.append_assoc, trimList, ← hrest, List.takeWhile_append_dropWhile]
  · intro c hc
    have hhead := List.head?_dropWhile_not isBlank cs
    rwa [hrest, ← trimList, Option.mem_def.mp (List.mem_head?_append_of_mem_head? hc)] at hhead

theorem Trims.trimList_eq (h : Trims cs core) : trimList cs = core := by
  obtain ⟨front, back, rfl, hfront, hback⟩ := h.split
  rw [trimList, List.append_assoc, List.dropWhile_append_of_pos hfront]
  cases core with
  | nil =>
    rw [List.nil_append, List.dropWhile_eq_nil_iff.mpr hback]
    rfl
  | cons c rest =>
    rw [List.cons_append, List.dropWhile_cons_of_neg (by simp [h.head c rfl]), ← List.cons_append,
      trimEnd_append_blanks hback, trimEnd_eq_self h.last]

end GraphMapping.Text
