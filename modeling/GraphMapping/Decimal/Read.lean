import GraphMapping.Decimal.Binary

/-!
# Reading a double

A decimal literal is an optional sign, digits with at most one point among or around them, and an
optional exponent; `inf`, `infinity` and `nan` are read in any case. The double read is always the
one closest to the number written, however many digits there are.

## Main definitions

* `nearestDecimal`: the double closest to `± digits · 10 ^ exponent`.
* `Unsigned`, `readUnsigned`: a literal without its sign.
* `readFloat`: the double a text stands for, if it is a literal.
-/

namespace GraphMapping.Decimal

/-- The double closest to `± digits · 10 ^ exponent`. Exponents far outside the range of doubles are
answered without computing the power. -/
def nearestDecimal (negative : Bool) (digits : Nat) (exponent : Int) : Float :=
  if digits = 0 then nearest negative 0 1
  else if 400 < exponent then nearest negative (Nat.pow 2 1025) 1
  else if exponent + (Nat.log2 digits + 1) < -400 then nearest negative 0 1
  else nearest negative (digits * Nat.pow 10 exponent.toNat) (Nat.pow 10 (-exponent).toNat)

/-- An ASCII digit. -/
def isDigit (c : Char) : Bool := '0' ≤ c && c ≤ '9'

/-- The number that a run of digits writes. -/
def digitsValue (ds : List Char) : Nat :=
  ds.foldl (fun n c => 10 * n + (c.toNat - '0'.toNat)) 0

/-- An unsigned literal: the number `digits · 10 ^ exponent`. -/
structure Unsigned where
  digits : Nat
  exponent : Int
deriving DecidableEq, Repr

/-- The exponent after an `e`: an optional sign and at least one digit, and nothing else. -/
def readExponent (cs : List Char) : Option Int :=
  let unsigned := fun ds : List Char =>
    if ds ≠ [] ∧ ds.all isDigit then some (digitsValue ds : Int) else none
  match cs with
  | '-' :: ds => (unsigned ds).map (- ·)
  | '+' :: ds => unsigned ds
  | ds => unsigned ds

/-- A whole text as an unsigned literal. At least one digit stands beside the point. -/
def readUnsigned (cs : List Char) : Option Unsigned :=
  let whole := cs.takeWhile isDigit
  let afterWhole := cs.dropWhile isDigit
  let (fraction, rest) := match afterWhole with
    | '.' :: cs => (cs.takeWhile isDigit, cs.dropWhile isDigit)
    | cs => ([], cs)
  if whole = [] ∧ fraction = [] then none
  else
    let exponent := match rest with
      | [] => some 0
      | c :: cs => if c = 'e' ∨ c = 'E' then readExponent cs else none
    exponent.map fun e => ⟨digitsValue (whole ++ fraction), e - fraction.length⟩

/-- The double that a text stands for, if the text is a literal. -/
def readFloat (s : String) : Option Float :=
  let (negative, cs) := match s.toList with
    | '-' :: cs => (true, cs)
    | '+' :: cs => (false, cs)
    | cs => (false, cs)
  match readUnsigned cs with
  | some literal => some (nearestDecimal negative literal.digits literal.exponent)
  | none =>
    let word := cs.map Char.toLower
    if word = "inf".toList ∨ word = "infinity".toList then
      some (if negative then -(1.0 / 0.0) else 1.0 / 0.0)
    else if word = "nan".toList then some (0.0 / 0.0)
    else none

end GraphMapping.Decimal
