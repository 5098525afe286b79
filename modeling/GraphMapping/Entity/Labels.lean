import GraphMapping.Dict

/-!
# Labels

Labels form a set: they are kept in increasing order, without repetition and without the empty
label. A type name spells its labels with underscores between them.

## Main definitions

* `normalizeLabels`: the labels of a list, as a set.
* `deriveLabels`: the labels that a type name spells.

## Main results

* `normalizeLabels_sorted`: normalized labels increase strictly.
-/

namespace GraphMapping

/-- The labels of a list in increasing order, each once; the empty label is dropped. -/
def normalizeLabels (labels : List String) : List String :=
  (Dict.ofList ((labels.filter (· ≠ "")).map (·, ()))).names

/-- The pieces of a list between the elements equal to `separator`. -/
def splitOn (separator : Char) : List Char → List (List Char)
  | [] => [[]]
  | c :: rest =>
    if c = separator then [] :: splitOn separator rest
    else match splitOn separator rest with
      | [] => [[c]]
      | piece :: pieces => (c :: piece) :: pieces

/-- The labels that a type name spells: its pieces between underscores. -/
def deriveLabels (typeName : String) : List String :=
  normalizeLabels ((splitOn '_' typeName.toList).map String.ofList)

theorem normalizeLabels_sorted (labels : List String) :
    (normalizeLabels labels).Pairwise (· < ·) :=
  (Dict.ofList _).sorted

end GraphMapping
