import Mathlib.Data.List.Sort
import Mathlib.Data.String.Basic
import GraphMapping.Mapper.Loading
import GraphMapping.Proofs.Dict

/-!
# Type names and labels

The name of a node type spells the labels of its nodes, and a node that comes back is given the type
that its labels spell. The two ways are not inverse to each other. Labels are a set, so the order in
which the name spells them is lost on the way, as are empty and repeated pieces; on the way back they
are spelled in increasing order. So a name comes back exactly when it spells its labels in this
order, each once and none of them empty.

## Main definitions

* `pieces`: what a name spells, as it stands.
* `SpellsInOrder`: the pieces of a name increase strictly, and none is empty.

## Main results

* `mem_normalizeLabels`, `normalizeLabels_of_sorted`: labels as a set.
* `intercalate_pieces`, `pieces_intercalate`: names and their pieces.
* `nodeTypeName_perm`: in which order the labels of a node are listed does not matter.
* `nodeTypeName_deriveLabels`: which names come back.
-/

namespace GraphMapping

/-! ### Labels as a set -/

variable {labels : List String} {label : String}

theorem mem_normalizeLabels : label ∈ normalizeLabels labels ↔ label ∈ labels ∧ label ≠ "" := by
  rw [normalizeLabels, Dict.mem_names_iff, Dict.isSome_get?_ofList]
  simp

/-- What increases strictly and has no empty label is normalized already. -/
theorem normalizeLabels_of_sorted (h : labels.Pairwise (· < ·)) (hempty : "" ∉ labels) :
    normalizeLabels labels = labels := by
  refine (normalizeLabels_sorted labels).eq_of_mem_iff h fun label => ?_
  rw [mem_normalizeLabels]
  refine ⟨And.left, fun hmem => ⟨hmem, ?_⟩⟩
  rintro rfl
  exact hempty hmem

theorem head?_normalizeLabels : (normalizeLabels labels).head? = some label ↔
    label ∈ labels ∧ label ≠ "" ∧ ∀ other ∈ labels, other ≠ "" → label ≤ other := by
  have hsorted := normalizeLabels_sorted labels
  constructor
  · intro h
    obtain ⟨rest, hlabels⟩ := List.head?_eq_some_iff.mp h
    rw [hlabels] at hsorted
    have hmem : label ∈ normalizeLabels labels := hlabels ▸ List.mem_cons_self ..
    refine ⟨(mem_normalizeLabels.mp hmem).1, (mem_normalizeLabels.mp hmem).2, fun other ho hne => ?_⟩
    have hother : other ∈ normalizeLabels labels := mem_normalizeLabels.mpr ⟨ho, hne⟩
    rw [hlabels] at hother
    rcases List.mem_cons.mp hother with rfl | hrest
    · exact String.le_refl other
    · exact le_of_lt (List.rel_of_pairwise_cons hsorted hrest)
  · rintro ⟨hmem, hne, hleast⟩
    have hlabel : label ∈ normalizeLabels labels := mem_normalizeLabels.mpr ⟨hmem, hne⟩
    cases hlabels : normalizeLabels labels with
    | nil => simp [hlabels] at hlabel
    | cons first rest =>
      rw [hlabels] at hsorted hlabel
      have hfirst : first ∈ normalizeLabels labels := hlabels ▸ List.mem_cons_self ..
      obtain ⟨hfirstMem, hfirstNe⟩ := mem_normalizeLabels.mp hfirst
      rcases List.mem_cons.mp hlabel with rfl | hrest
      · rfl
      · exact absurd (List.rel_of_pairwise_cons hsorted hrest)
          (String.not_lt.mpr (hleast first hfirstMem hfirstNe))

/-! ### Names and their pieces -/

theorem splitOn_eq (separator : Char) (l : List Char) :
    splitOn separator l = l.splitOn separator := by
  induction l with
  | nil => rfl
  | cons c rest ih =>
    rw [splitOn, List.splitOn_cons_eq_if_modifyHead, ih]
    by_cases hc : c = separator
    · simp [hc]
    · cases hrest : rest.splitOn separator with
      | nil => exact (List.splitOn_ne_nil _ _ hrest).elim
      | cons piece pieces => simp [hc]

theorem not_mem_of_mem_splitOn {separator : Char} {l piece : List Char}
    (h : piece ∈ splitOn separator l) : separator ∉ piece := by
  induction l generalizing piece with
  | nil => simp_all [splitOn]
  | cons c rest ih =>
    rw [splitOn] at h
    split at h
    · rcases List.mem_cons.mp h with rfl | hrest
      · exact List.not_mem_nil
      · exact ih hrest
    · rename_i hc
      split at h
      · obtain rfl := List.mem_singleton.mp h
        simpa using Ne.symm hc
      · rename_i first others hsplit
        rcases List.mem_cons.mp h with rfl | hothers
        · have hfirst := ih (hsplit ▸ List.mem_cons_self ..)
          simp [hfirst, Ne.symm hc]
        · exact ih (hsplit ▸ List.mem_cons_of_mem _ hothers)

/-- The pieces of a type name between underscores. -/
def pieces (typeName : String) : List String := (splitOn '_' typeName.toList).map String.ofList

theorem intercalate_pieces (typeName : String) : "_".intercalate (pieces typeName) = typeName := by
  refine String.toList_inj.mp ?_
  rw [String.toList_intercalate, pieces, List.map_map, splitOn_eq]
  have hid : String.toList ∘ String.ofList = id := funext fun l => String.toList_ofList
  rw [hid, List.map_id]
  exact List.intercalate_splitOn '_'

/-- Labels without underscores are the pieces of the name that they spell. A label with an
underscore would fall apart into two. -/
theorem pieces_intercalate (hne : labels ≠ []) (h : ∀ label ∈ labels, '_' ∉ label.toList) :
    pieces ("_".intercalate labels) = labels := by
  have hsplit : List.splitOn '_' (['_'].intercalate (labels.map String.toList)) =
      labels.map String.toList := by
    refine List.splitOn_intercalate '_' ?_ (by simpa using hne)
    simpa using h
  have hunderscore : "_".toList = ['_'] := rfl
  have hid : String.ofList ∘ String.toList = id := funext fun s => String.ofList_toList
  rw [pieces, splitOn_eq, String.toList_intercalate, hunderscore, hsplit, List.map_map, hid,
    List.map_id]

/-- The pieces of the name increase strictly, and none is empty. -/
def SpellsInOrder (typeName : String) : Prop :=
  (pieces typeName).Pairwise (· < ·) ∧ "" ∉ pieces typeName

instance : DecidablePred SpellsInOrder := fun _ => inferInstanceAs (Decidable (_ ∧ _))

theorem mem_deriveLabels {typeName : String} :
    label ∈ deriveLabels typeName ↔ label ∈ pieces typeName ∧ label ≠ "" :=
  mem_normalizeLabels

/-- Labels that a name spells have no underscores. -/
theorem not_mem_of_mem_deriveLabels {typeName : String} (h : label ∈ deriveLabels typeName) :
    '_' ∉ label.toList := by
  obtain ⟨piece, hpiece, rfl⟩ := List.mem_map.mp (mem_deriveLabels.mp h).1
  rw [String.toList_ofList]
  exact not_mem_of_mem_splitOn hpiece

/-! ### The type name of a node -/

namespace Library

/-- The order in which labels are listed does not matter. A database promises none, so that a type
name made of the labels as they came could change from one answer to the next. -/
theorem nodeTypeName_perm {labels' : List String} (h : labels.Perm labels') :
    nodeTypeName labels = nodeTypeName labels' := by
  have hsorted : ∀ l : List String,
      (l.mergeSort fun a b => decide (a ≤ b)).Pairwise fun a b => decide (a ≤ b) = true := by
    intro l
    refine List.pairwise_mergeSort (fun a b c hab hbc => ?_) (fun a b => ?_) l
    · exact decide_eq_true (String.le_trans (of_decide_eq_true hab) (of_decide_eq_true hbc))
    · simpa using String.le_total a b
  have hmerge : (labels.mergeSort fun a b => decide (a ≤ b)) =
      labels'.mergeSort fun a b => decide (a ≤ b) := by
    refine List.Perm.eq_of_pairwise (fun a b _ _ hab hba => ?_) (hsorted labels) (hsorted labels') ?_
    · exact String.le_antisymm (of_decide_eq_true hab) (of_decide_eq_true hba)
    · exact ((List.mergeSort_perm ..).trans h).trans (List.mergeSort_perm ..).symm
  rw [nodeTypeName, nodeTypeName, hmerge]
  exact if_congr ⟨fun hnil => (hnil ▸ h).nil_eq.symm, fun hnil => (hnil ▸ h).eq_nil⟩ rfl rfl

/-- Labels that increase already are spelled as they stand. -/
theorem nodeTypeName_of_sorted (hne : labels ≠ []) (h : labels.Pairwise (· ≤ ·)) :
    nodeTypeName labels = "_".intercalate labels := by
  rw [nodeTypeName, if_neg hne, List.mergeSort_of_pairwise]
  exact h.imp fun hle => decide_eq_true hle

/-- A type name comes back from its labels exactly when it spells them in order. Otherwise a node
that was stored under the name is loaded under another one: its pieces are sorted, and those that
are empty or repeated are gone. -/
theorem nodeTypeName_deriveLabels {typeName : String} :
    nodeTypeName (deriveLabels typeName) = typeName ↔ SpellsInOrder typeName := by
  have hsorted : (deriveLabels typeName).Pairwise (· < ·) := normalizeLabels_sorted _
  have hle : ∀ {labels : List String}, labels.Pairwise (· < ·) → labels.Pairwise (· ≤ ·) :=
    fun h => h.imp le_of_lt
  constructor
  · intro h
    have hne : deriveLabels typeName ≠ [] := by
      intro hnone
      rw [hnone] at h
      obtain rfl : genericNodeName = typeName := h
      exact absurd hnone (by decide)
    rw [nodeTypeName_of_sorted hne (hle hsorted)] at h
    have hpieces : pieces typeName = deriveLabels typeName := by
      conv_lhs => rw [← h]
      exact pieces_intercalate hne fun label => not_mem_of_mem_deriveLabels
    refine ⟨hpieces ▸ hsorted, fun hempty => ?_⟩
    rw [hpieces] at hempty
    exact (mem_deriveLabels.mp hempty).2 rfl
  · rintro ⟨hpieces, hempty⟩
    have hderive : deriveLabels typeName = pieces typeName :=
      normalizeLabels_of_sorted hpieces hempty
    have hne : pieces typeName ≠ [] := by
      simp [pieces, splitOn_eq]
    rw [hderive, nodeTypeName_of_sorted hne (hle hpieces), intercalate_pieces]

end Library

end GraphMapping
