import GraphMapping.Calendar.Rfc3339
import GraphMapping.Decimal.Layout
import GraphMapping.Value

/-!
# Values as JSON text

The compact JSON text of a value: no blanks, and map entries in the order they have. A point in
time is written as a timestamp string, and a float that is no finite number as `null`.

## Main definitions

* `Json.quoted`: a JSON string literal.
* `Json.number`: the layout of floats.
* `Json.write`: the text of a value.
-/

namespace GraphMapping.Json

open Calendar (DateTime)

/-! ### Strings -/

/-- A lower-case hexadecimal digit. -/
def hexDigit (n : Nat) : Char :=
  if n < 10 then Char.ofNat (n + '0'.toNat) else Char.ofNat (n - 10 + 'a'.toNat)

/-- A character inside a string literal. The quote, the backslash and the characters below U+0020
are escaped, five of the latter by a letter of their own; all others stand for themselves. -/
def escapeChar (c : Char) : List Char :=
  if c = '"' then ['\\', '"']
  else if c = '\\' then ['\\', '\\']
  else if c = '\n' then ['\\', 'n']
  else if c = '\r' then ['\\', 'r']
  else if c = '\t' then ['\\', 't']
  else if c = '\x08' then ['\\', 'b']
  else if c = '\x0c' then ['\\', 'f']
  else if c.toNat < 0x20 then
    ['\\', 'u', '0', '0', hexDigit (c.toNat / 16), hexDigit (c.toNat % 16)]
  else [c]

/-- The string literal of a text, as characters. -/
def quotedChars (cs : List Char) : List Char :=
  '"' :: (cs.flatMap escapeChar ++ ['"'])

/-- The string literal of a text. -/
def quoted (s : String) : String :=
  String.ofList (quotedChars s.toList)

/-! ### Numbers -/

/-- Floats are written without an exponent from a hundred-thousandth up to, but not including,
10 ^ 16, then always with a point; a tie between two shortest decimals goes to the even one. What is
no finite number is `null`. -/
def number : Decimal.Layout where
  tie := .even
  positional point := -4 ≤ point && point ≤ 16
  wholeMark := ".0"
  nan := "null"
  infinity := "null"
  negativeInfinity := "null"

/-! ### Values -/

mutual

/-- The compact JSON text of a value. -/
def write : Value → String
  | .null => "null"
  | .bool b => if b then "true" else "false"
  | .integer i => toString i.toInt
  | .float x => number.write x
  | .string s => quoted s
  | .dateTime t => quoted (t.format "Z")
  | .list items => "[" ++ writeItems items ++ "]"
  | .map entries => "\x7b" ++ writeEntries entries ++ "\x7d"

/-- The items of a list, with commas between them. -/
def writeItems : List Value → String
  | [] => ""
  | [item] => write item
  | item :: rest => write item ++ "," ++ writeItems rest

/-- The entries of a map, with commas between them. -/
def writeEntries : List (String × Value) → String
  | [] => ""
  | [(name, value)] => quoted name ++ ":" ++ write value
  | (name, value) :: rest => quoted name ++ ":" ++ write value ++ "," ++ writeEntries rest

end

end GraphMapping.Json
