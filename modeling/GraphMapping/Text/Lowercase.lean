import GraphMapping.Text.CaseTable

/-!
# Lower-casing

Parameter names and truth words are compared in lower case. The mapping is the full one: a
character may become two (`İ` becomes `i` and a combining dot), and a capital sigma becomes a final
sigma at the end of a word and an ordinary one elsewhere.

## Main definitions

* `lowercaseChar`: the lower-case form of one character outside any word.
* `endsWord`: the position between two pieces of text is the end of a word.
* `lowercase`: the lower-case form of a text.
-/

namespace GraphMapping.Text

private def inRanges (ranges : List (Nat × Nat)) (c : Char) : Bool :=
  ranges.any fun range => range.1 ≤ c.toNat && c.toNat ≤ range.2

/-- The character is a letter with case. -/
def isCased (c : Char) : Bool := inRanges casedRanges c

/-- The character is looked through when the neighbours of a sigma are inspected. -/
def isCaseIgnorable (c : Char) : Bool := inRanges ignorableRanges c

/-- The lower-case form of a character that does not depend on its neighbours. -/
def lowercaseChar (c : Char) : List Char :=
  if c.toNat < 128 then [c.toLower]
  else if c = 'İ' then ['i', Char.ofNat 0x307]
  else
    match lowerRanges.find? fun row =>
        row.1 ≤ c.toNat && c.toNat ≤ row.2.1 && (c.toNat - row.1) % row.2.2.1 == 0 with
    | some row => [Char.ofNat (c.toNat + row.2.2.2).toNat]
    | none => [c]

/-- A cased character comes first once the ignorable ones are looked through. -/
def startsCased (cs : List Char) : Bool :=
  match cs.dropWhile isCaseIgnorable with
  | [] => false
  | c :: _ => isCased c

/-- A word ends between `before`, given last character first, and `after`. -/
def endsWord (before after : List Char) : Bool :=
  startsCased before && !startsCased after

/-- Lower-case the rest of a text of which `before` has been passed, last character first. -/
def lowercaseAfter (before : List Char) : List Char → List Char
  | [] => []
  | c :: rest =>
    (if c = 'Σ' then [if endsWord before rest then 'ς' else 'σ'] else lowercaseChar c) ++
      lowercaseAfter (c :: before) rest

/-- The lower-case form of a text. -/
def lowercase (s : String) : String :=
  String.ofList (lowercaseAfter [] s.toList)

end GraphMapping.Text
