import GraphMapping.Offer

/-!
# JSON numbers

A number without point and exponent is offered as an integer if it fits a machine word of 64 bits,
signed if it is negative and unsigned otherwise. `-0` and every other number is offered as a float.
The float is computed from a significand of at most 64 bits, to which further digits are not added,
with one multiplication or division by a power of ten, so it can differ in its last bit from the
double closest to the number. A number too large for a double is refused.

## Main definitions

* `NumberText`: the parts of a number as written.
* `Significand.ofDigits`: digits taken up until 64 bits are full.
* `scaleByTen?`: a float times a power of ten.
* `NumberText.offer?`: what a number is offered as.
-/

namespace GraphMapping.Json

open Decimal (digitsValue)

/-- A number as written: its sign, its whole digits, the digits after a point and the signed digits
of an exponent. -/
structure NumberText where
  negative : Bool
  whole : List Char
  fraction : Option (List Char)
  exponent : Option (Bool × List Char)

/-! ### Significands -/

/-- A 64-bit significand together with the number of digits taken and the digits left over. -/
structure Significand where
  value : Nat
  taken : Nat
  left : List Char

/-- Take digits into a significand while it stays below `2 ^ 64`. -/
def Significand.ofDigits (start : Nat) : List Char → Significand
  | [] => ⟨start, 0, []⟩
  | d :: ds =>
    let next := 10 * start + digitsValue [d]
    if next < Nat.pow 2 64 then
      let s := Significand.ofDigits next ds
      { s with taken := s.taken + 1 }
    else ⟨start, 0, d :: ds⟩

/-! ### Scaling -/

/-- The double closest to `10 ^ n`. -/
def powerOfTen (n : Nat) : Float := Decimal.nearestDecimal false 1 n

/-- `x · 10 ^ exponent` in float arithmetic, unless it is too large. Powers of ten beyond the range
of doubles are divided out in steps of `10 ^ 308`. -/
def scaleByTen? (x : Float) (exponent : Int) : Option Float :=
  if exponent.natAbs ≤ 308 then
    if 0 ≤ exponent then
      let y := x * powerOfTen exponent.toNat
      if y.isInf then none else some y
    else some (x / powerOfTen exponent.natAbs)
  else if x == 0.0 then some x
  else if 0 ≤ exponent then none
  else scaleByTen? (x / powerOfTen 308) (exponent + 308)
termination_by exponent.natAbs
decreasing_by omega

/-! ### Offers -/

/-- The largest exponent that is told apart. -/
def maxExponent : Nat := 2147483647

/-- A float with a sign put in front. -/
def signed (negative : Bool) (x : Float) : Float := if negative then -x else x

/-- The float `± significand · 10 ^ exponent`, with the exponent as written added. -/
def floatValue? (negative : Bool) (significand : Nat) (exponent : Int)
    (written : Option (Bool × List Char)) : Option Float :=
  match written with
  | none => (scaleByTen? (Decimal.ofInt significand) exponent).map (signed negative)
  | some (down, digits) =>
    let shift := digitsValue digits
    if maxExponent < shift then
      if significand ≠ 0 ∧ !down then none else some (signed negative 0.0)
    else
      let total : Int := if down then exponent - shift else exponent + shift
      (scaleByTen? (Decimal.ofInt significand) total).map (signed negative)

/-- An integer; the float closest to it when it is negative and beyond a machine word, and `-0`. -/
def wholeOffer (negative : Bool) (significand : Nat) : Offer :=
  if negative then
    if significand = 0 ∨ Nat.pow 2 63 < significand then .float (-(Decimal.ofInt significand))
    else .integer (-significand)
  else .integer significand

/-- What a number is offered as. -/
def NumberText.offer? (n : NumberText) : Option Offer :=
  let whole := Significand.ofDigits 0 n.whole
  match n.fraction, n.exponent, whole.left with
  | none, none, [] => some (wholeOffer n.negative whole.value)
  | _, _, _ =>
    let all := Significand.ofDigits whole.value (n.fraction.getD [])
    let exponent : Int := whole.left.length - all.taken
    (floatValue? n.negative all.value exponent n.exponent).map .float

end GraphMapping.Json
