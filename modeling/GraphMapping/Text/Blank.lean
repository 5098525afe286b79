/-!
# Blank characters

The characters that count as white space around a value. The set is the Unicode property
`White_Space`, 25 characters, and not only the ASCII blanks: a no-break space or an ideographic
space around a number is trimmed as well.

## Main definitions

* `isBlank`: the character is white space.
* `trim`: the text without the blanks at both ends.
-/

namespace GraphMapping.Text

/-- The code points with the property `White_Space`, as ranges of first and last. -/
def blankRanges : List (Nat × Nat) :=
  [(0x09, 0x0D), (0x20, 0x20), (0x85, 0x85), (0xA0, 0xA0), (0x1680, 0x1680), (0x2000, 0x200A),
    (0x2028, 0x2029), (0x202F, 0x202F), (0x205F, 0x205F), (0x3000, 0x3000)]

/-- The character is white space. -/
def isBlank (c : Char) : Bool :=
  blankRanges.any fun range => range.1 ≤ c.toNat && c.toNat ≤ range.2

/-- Drop the blanks at the end of a list of characters. -/
def trimEnd (cs : List Char) : List Char :=
  (cs.reverse.dropWhile isBlank).reverse

/-- Drop the blanks at both ends of a list of characters. -/
def trimList (cs : List Char) : List Char :=
  trimEnd (cs.dropWhile isBlank)

/-- The text without the blanks at both ends. -/
def trim (s : String) : String :=
  String.ofList (trimList s.toList)

-- there are 25 blank characters
example : (blankRanges.map fun range => range.2 + 1 - range.1).sum = 25 := by decide

end GraphMapping.Text
