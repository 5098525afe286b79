/-!
# Doubles as exact numbers

A double is either not a number, an infinity, or exactly `± mantissa · 2 ^ exponent`. Everything
this library does with a double other than adding, subtracting, multiplying, dividing and comparing
it is done on that exact number, with integers: cutting off or rounding its fraction, writing it in
decimal, and finding the double closest to a ratio. Nothing here depends on a rounding mode.

## Main definitions

* `Binary`, `Binary.ofFloat`: the exact number a double stands for.
* `nearest`: the double closest to a ratio of naturals, a tie going to the even neighbour.
* `truncate?`, `floor?`, `roundHalfUp?`: the integer parts of a finite double.
* `toInt64Clamped`: the integer part as a machine integer, kept inside its range.

## Main results

* `clampInt64_of_mem`: a number inside the range of machine integers is kept as it is.
-/

namespace GraphMapping.Decimal

/-- The number a double stands for. -/
inductive Binary where
  /-- Not a number. -/
  | nan
  /-- Positive or negative infinity. -/
  | infinite (negative : Bool)
  /-- The number `± mantissa · 2 ^ exponent`; zero keeps its sign. -/
  | finite (negative : Bool) (mantissa : Nat) (exponent : Int)
deriving DecidableEq, Repr

/-- The number written in the bits of a double: one sign bit, eleven exponent bits and 52 mantissa
bits. -/
def Binary.ofBits (bits : UInt64) : Binary :=
  let negative := bits.toNat / Nat.pow 2 63 % 2 == 1
  let exponentField : Nat := bits.toNat / Nat.pow 2 52 % Nat.pow 2 11
  let mantissaField : Nat := bits.toNat % Nat.pow 2 52
  if exponentField = 2047 then
    if mantissaField = 0 then .infinite negative else .nan
  else if exponentField = 0 then .finite negative mantissaField (-1074)
  else .finite negative (Nat.pow 2 52 + mantissaField) ((exponentField : Int) - 1075)

/-- The number a double stands for. -/
def Binary.ofFloat (x : Float) : Binary := .ofBits x.toBits

/-! ### The closest double -/

/-- The quotient `num / den` rounded to the nearest natural, a tie going to the even one. -/
def roundDivEven (num den : Nat) : Nat :=
  let q := num / den
  let twice := 2 * (num % den)
  if twice < den then q
  else if den < twice then q + 1
  else if q % 2 = 0 then q else q + 1

/-- The exponent of the leading binary digit of `num / den`, for positive `num` and `den`. -/
def leadingExponent (num den : Nat) : Int :=
  let k : Int := (Nat.log2 num : Int) - Nat.log2 den
  if den * Nat.pow 2 k.toNat ≤ num * Nat.pow 2 (-k).toNat then k else k - 1

/-- The bits, without the sign, of the double closest to `num / den`. A mantissa of 53 digits
starting at `max (leading exponent - 52) (-1074)` is rounded; a carry out of the mantissa moves into
the exponent field by itself, and what reaches the largest exponent field is infinity. -/
def nearestMagnitude (num den : Nat) : Nat :=
  if num = 0 then 0
  else
    let e := max (leadingExponent num den - 52) (-1074)
    let m := roundDivEven (num * Nat.pow 2 (-e).toNat) (den * Nat.pow 2 e.toNat)
    min ((e + 1074).toNat * Nat.pow 2 52 + m) (2047 * Nat.pow 2 52)

/-- The double closest to `± num / den`, a tie going to the even neighbour. -/
def nearest (negative : Bool) (num den : Nat) : Float :=
  Float.ofBits (UInt64.ofNat (nearestMagnitude num den + if negative then Nat.pow 2 63 else 0))

/-- The double closest to an integer. -/
def ofInt (i : Int) : Float := nearest (i < 0) i.natAbs 1

/-! ### Integer parts -/

/-- The integer with the given sign and magnitude. -/
def withSign (negative : Bool) (magnitude : Nat) : Int :=
  if negative then -(magnitude : Int) else magnitude

/-- The integer between a finite double and zero that is closest to it. -/
def truncate? (x : Float) : Option Int :=
  match Binary.ofFloat x with
  | .finite negative m e =>
    some (withSign negative (m * Nat.pow 2 e.toNat / Nat.pow 2 (-e).toNat))
  | _ => none

/-- The largest integer not above a finite double. -/
def floor? (x : Float) : Option Int :=
  match Binary.ofFloat x with
  | .finite negative m e =>
    some ((withSign negative (m * Nat.pow 2 e.toNat)).fdiv (Int.pow 2 (-e).toNat))
  | _ => none

/-- The integer closest to a finite double, a half going up. -/
def roundHalfUp? (x : Float) : Option Int :=
  match Binary.ofFloat x with
  | .finite negative m e =>
    let twice := 2 * withSign negative (m * Nat.pow 2 e.toNat)
    some ((twice + Int.pow 2 (-e).toNat).fdiv (Int.pow 2 ((-e).toNat + 1)))
  | _ => none

/-- The machine integer closest to an integer. -/
def clampInt64 (i : Int) : Int64 :=
  Int64.ofInt (max Int64.minValue.toInt (min i Int64.maxValue.toInt))

theorem clampInt64_of_mem {i : Int} (lo : Int64.minValue.toInt ≤ i)
    (hi : i ≤ Int64.maxValue.toInt) : (clampInt64 i).toInt = i := by
  rw [clampInt64, Int.min_eq_left hi, Int.max_eq_right lo]
  exact Int64.toInt_ofInt_of_le lo (Int.lt_add_one_of_le hi)

/-- The integer part of a double as a machine integer: what is too large becomes the end of the
range, and what is not a number becomes 0. -/
def toInt64Clamped (x : Float) : Int64 :=
  match Binary.ofFloat x with
  | .nan => 0
  | .infinite negative => if negative then Int64.minValue else Int64.maxValue
  | .finite .. => clampInt64 ((truncate? x).getD 0)

end GraphMapping.Decimal
