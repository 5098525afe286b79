/-!
# Identifiers in query text

Labels, relationship types and field names come from the application and may contain anything. In
query text an identifier is written bare when it is a plain name, and otherwise between backticks
with every backtick inside doubled, so that no name can end its own quotation.

## Main definitions

* `Identifier.isPlain`: the name needs no quotes.
* `Identifier.quote`: an identifier as query text.
* `Identifier.labelFragment`: a set of labels as query text.
-/

namespace GraphMapping.Identifier

/-- An ASCII letter or an underscore. -/
def isStart (c : Char) : Bool :=
  ('a' ≤ c && c ≤ 'z') || ('A' ≤ c && c ≤ 'Z') || c = '_'

/-- An ASCII letter, digit or underscore. -/
def isPart (c : Char) : Bool := isStart c || ('0' ≤ c && c ≤ '9')

/-- The name is a start character followed by part characters. -/
def isPlain : List Char → Bool
  | [] => false
  | c :: rest => isStart c && rest.all isPart

/-- A name with every backtick doubled. -/
def escape : List Char → List Char
  | [] => []
  | c :: rest => if c = '`' then '`' :: '`' :: escape rest else c :: escape rest

/-- An identifier as query text, as characters. -/
def quoteChars (name : List Char) : List Char :=
  if isPlain name then name else '`' :: (escape name ++ ['`'])

/-- An identifier as query text. -/
def quote (name : String) : String := String.ofList (quoteChars name.toList)

/-- Labels as query text: each behind a colon, nothing when there are none. -/
def labelFragment : List String → String
  | [] => ""
  | label :: rest => ":" ++ quote label ++ labelFragment rest

end GraphMapping.Identifier
