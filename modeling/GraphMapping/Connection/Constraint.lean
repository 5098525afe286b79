import GraphMapping.Text.Blank

/-!
# Constraint violations

The database reports a violated uniqueness constraint as a sentence only, such as
``Node(12) already exists with label `User` and property `email` = 'a@b.c'``. The reader looks for
the first place from which the rest of the message has that form; what comes before is ignored.

## Main definitions

* `ConstraintViolation`: the label, the field and the value of a violation.
* `ConstraintViolation.parse?`: the violation that a message reports.
-/

namespace GraphMapping

/-- A uniqueness constraint that a statement violated. -/
structure ConstraintViolation where
  label : String
  field : String
  value : String
deriving DecidableEq, Repr

namespace ConstraintViolation

/-- The text after `literal` at the front of a text. -/
def after? (literal : List Char) (cs : List Char) : Option (List Char) :=
  if literal.isPrefixOf cs then some (cs.drop literal.length) else none

/-- A name up to the next backtick, which is left; a name is never empty. -/
def name? (cs : List Char) : Option (List Char × List Char) :=
  let name := cs.takeWhile (· ≠ '`')
  if name = [] then none else some (name, cs.dropWhile (· ≠ '`'))

/-- The shown value at the end of a message: the shortest text, at least one character long, after
which only blanks follow. It stays on one line. -/
def shownValue? (cs : List Char) : Option (List Char) :=
  match Text.trimEnd cs with
  | [] =>
    match cs with
    | [] => none
    | c :: _ => if c = '\n' then none else some [c]
  | core => if '\n' ∈ core then none else some core

/-- The text without the character `q` at both ends, if it stands at both. -/
def stripQuote? (q : Char) (cs : List Char) : Option (List Char) :=
  match cs with
  | c :: rest => if c = q ∧ rest.getLast? = some q then some rest.dropLast else none
  | [] => none

/-- A shown value without the blanks around it and without one pair of quotes, single or double. -/
def unquote (cs : List Char) : List Char :=
  let trimmed := Text.trimList cs
  ((stripQuote? '\'' trimmed).orElse fun _ => stripQuote? '"' trimmed).getD trimmed

/-- The violation reported by a message that starts right here. -/
def parseHere? (cs : List Char) : Option ConstraintViolation := do
  let (label, cs) ← name? (← after? "already exists with label `".toList cs)
  let (field, cs) ← name? (← after? "` and property `".toList cs)
  let shown ← shownValue? (← after? "` = ".toList cs)
  return ⟨String.ofList label, String.ofList field, String.ofList (unquote shown)⟩

/-- The violation reported from the first place on that has the form. -/
def parseChars? : List Char → Option ConstraintViolation
  | [] => none
  | c :: rest => (parseHere? (c :: rest)).orElse fun _ => parseChars? rest

/-- The violation that a message reports. -/
def parse? (message : String) : Option ConstraintViolation := parseChars? message.toList

/-- The violation as a message of this library. -/
def message (v : ConstraintViolation) : String :=
  "Constraint violation: `" ++ v.label ++ "`.`" ++ v.field ++ "` = " ++ v.value ++ " already exists"

end ConstraintViolation

end GraphMapping
