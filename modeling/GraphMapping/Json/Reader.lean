import GraphMapping.Json.Number

/-!
# Reading values from JSON text

Strict JSON. Strings never become points in time; a name that an object repeats keeps its last
value; lists and maps may be nested 127 deep. Escapes of surrogates must come in pairs.

The reader consumes a list of characters and returns what is left. Nesting is a structural
recursion on the depth that is still allowed, so no bound on the recursion shows from outside.

## Main definitions

* `Json.readString`, `Json.readNumber`: the scalar readers.
* `Json.readValue`: a value at the front of a text.
* `Json.parse?`: the value of a whole text.
-/

namespace GraphMapping.Json

open Decimal (isDigit)

/-! ### Blanks and words -/

/-- The four blanks of JSON. -/
def isSpace (c : Char) : Bool := c = ' ' || c = '\t' || c = '\n' || c = '\r'

/-- The text after leading blanks. -/
def skipSpace (cs : List Char) : List Char := cs.dropWhile isSpace

/-! ### Strings -/

/-- The value of a hexadecimal digit of either case. -/
def hexValue? (c : Char) : Option Nat :=
  if '0' ≤ c ∧ c ≤ '9' then some (c.toNat - '0'.toNat)
  else if 'a' ≤ c ∧ c ≤ 'f' then some (c.toNat - 'a'.toNat + 10)
  else if 'A' ≤ c ∧ c ≤ 'F' then some (c.toNat - 'A'.toNat + 10)
  else none

/-- The number that four hexadecimal digits write. -/
def hex4? (a b c d : Char) : Option Nat := do
  return (← hexValue? a) * 4096 + (← hexValue? b) * 256 + (← hexValue? c) * 16 + (← hexValue? d)

/-- The character that a letter after a backslash stands for. -/
def escaped? (c : Char) : Option Char :=
  if c = '"' ∨ c = '\\' ∨ c = '/' then some c
  else if c = 'b' then some '\x08'
  else if c = 'f' then some '\x0c'
  else if c = 'n' then some '\n'
  else if c = 'r' then some '\r'
  else if c = 't' then some '\t'
  else none

/-- The character at the front of the inside of a string literal, and what follows it. -/
def readChar? : List Char → Option (Char × List Char)
  | '\\' :: 'u' :: a :: b :: c :: d :: rest => do
    let unit ← hex4? a b c d
    if unit < 0xD800 ∨ 0xDFFF < unit then return (Char.ofNat unit, rest)
    else if 0xDBFF < unit then none
    else match rest with
      | '\\' :: 'u' :: a :: b :: c :: d :: rest =>
        let low ← hex4? a b c d
        if 0xDC00 ≤ low ∧ low ≤ 0xDFFF then
          return (Char.ofNat (0x10000 + (unit - 0xD800) * 0x400 + (low - 0xDC00)), rest)
        else none
      | _ => none
  | '\\' :: c :: rest => (escaped? c).map (·, rest)
  | c :: rest => if c.toNat < 0x20 ∨ c = '\\' ∨ c = '"' then none else some (c, rest)
  | [] => none

/-- The inside of a string literal up to its closing quote, and what follows the quote; at most
`fuel` characters are read. -/
def readChars : Nat → List Char → Option (List Char × List Char)
  | 0, _ => none
  | fuel + 1, cs =>
    match cs with
    | '"' :: rest => some ([], rest)
    | cs => do
      let (c, rest) ← readChar? cs
      let (text, rest) ← readChars fuel rest
      return (c :: text, rest)

/-- A string literal whose opening quote has been passed. -/
def readString (cs : List Char) : Option (String × List Char) :=
  (readChars (cs.length + 1) cs).map fun (text, rest) => (String.ofList text, rest)

/-! ### Numbers -/

/-- The digits after a point, if there is one; at least one must follow. -/
def readFraction (cs : List Char) : Option (Option (List Char) × List Char) :=
  match cs with
  | '.' :: rest =>
    if rest.takeWhile isDigit = [] then none
    else some (some (rest.takeWhile isDigit), rest.dropWhile isDigit)
  | cs => some (none, cs)

/-- The exponent, if there is one; the flag says that it is negative. -/
def readExponent (cs : List Char) : Option (Option (Bool × List Char) × List Char) :=
  match cs with
  | c :: rest =>
    if c = 'e' ∨ c = 'E' then
      let (down, rest) := match rest with
        | '-' :: rest => (true, rest)
        | '+' :: rest => (false, rest)
        | rest => (false, rest)
      if rest.takeWhile isDigit = [] then none
      else some (some (down, rest.takeWhile isDigit), rest.dropWhile isDigit)
    else some (none, cs)
  | [] => some (none, [])

/-- A number whose sign has been passed. Its whole digits start with a zero only if that is all of
them. -/
def readUnsigned (negative : Bool) (cs : List Char) : Option (Value × List Char) := do
  let whole := cs.takeWhile isDigit
  if whole = [] ∨ (whole.head? = some '0' ∧ 1 < whole.length) then none
  else
    let (fraction, rest) ← readFraction (cs.dropWhile isDigit)
    let (exponent, rest) ← readExponent rest
    let offer ← NumberText.offer? ⟨negative, whole, fraction, exponent⟩
    return (offer.value, rest)

/-- A number at the front of a text. -/
def readNumber : List Char → Option (Value × List Char)
  | '-' :: rest => readUnsigned true rest
  | cs => readUnsigned false cs

/-! ### Lists and maps -/

/-- The items of a list up to the closing bracket, each read by `item`, where one must follow; at
most `fuel` items are read. -/
def readItems (item : List Char → Option (Value × List Char)) :
    Nat → List Char → Option (List Value × List Char)
  | 0, _ => none
  | fuel + 1, cs => do
    let (value, rest) ← item cs
    match skipSpace rest with
    | ']' :: rest => return ([value], rest)
    | ',' :: rest =>
      let (values, rest) ← readItems item fuel rest
      return (value :: values, rest)
    | _ => none

/-- The entries of a map up to the closing brace, where one must follow; values are read by `item`
and at most `fuel` entries are read. -/
def readEntries (item : List Char → Option (Value × List Char)) :
    Nat → List Char → Option (List (String × Value) × List Char)
  | 0, _ => none
  | fuel + 1, cs => do
    let (name, rest) ← match skipSpace cs with
      | '"' :: rest => readString rest
      | _ => none
    let (value, rest) ← match skipSpace rest with
      | ':' :: rest => item rest
      | _ => none
    match skipSpace rest with
    | '}' :: rest => return ([(name, value)], rest)
    | ',' :: rest =>
      let (entries, rest) ← readEntries item fuel rest
      return ((name, value) :: entries, rest)
    | _ => none

/-! ### Values -/

/-- How deep lists and maps may be nested. -/
def maxDepth : Nat := 127

/-- The value at the front of a text, in which lists and maps may be nested `depth` deep. -/
def readValue (depth : Nat) (cs : List Char) : Option (Value × List Char) :=
  match skipSpace cs with
  | 'n' :: 'u' :: 'l' :: 'l' :: rest => some (Offer.unit.value, rest)
  | 't' :: 'r' :: 'u' :: 'e' :: rest => some ((Offer.bool true).value, rest)
  | 'f' :: 'a' :: 'l' :: 's' :: 'e' :: rest => some ((Offer.bool false).value, rest)
  | '"' :: rest => (readString rest).map fun (text, rest) => ((Offer.text text).value, rest)
  | '[' :: rest =>
    match depth with
    | 0 => none
    | depth + 1 =>
      match skipSpace rest with
      | ']' :: rest => some ((Offer.sequence []).value, rest)
      | rest =>
        (readItems (readValue depth) (rest.length + 1) rest).map fun (items, rest) =>
          ((Offer.sequence items).value, rest)
  | '{' :: rest =>
    match depth with
    | 0 => none
    | depth + 1 =>
      match skipSpace rest with
      | '}' :: rest => some ((Offer.pairs []).value, rest)
      | rest =>
        (readEntries (readValue depth) (rest.length + 1) rest).map fun (entries, rest) =>
          ((Offer.pairs entries).value, rest)
  | cs => readNumber cs

/-- The value of a whole text, if it is JSON. -/
def parse? (s : String) : Option Value := do
  let (value, rest) ← readValue maxDepth s.toList
  if skipSpace rest = [] then return value else none

end GraphMapping.Json
