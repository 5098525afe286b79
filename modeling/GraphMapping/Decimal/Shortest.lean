import GraphMapping.Decimal.Binary

/-!
# Shortest decimals

Every double has many decimals that read back as it. The one to print has the fewest digits, and
among those it is the closest to the double. The search is exact: the reals that round to
`m · 2 ^ q` form an interval, and for one, two, … digits the two neighbours of the value on the
decimal grid of that width are compared with its ends.

Two neighbours can be equally close. Which of them is meant is the printer's decision (`Tie`).

## Main definitions

* `Numeral`: a natural number of tenth powers, `digits · 10 ^ exponent`.
* `readsBack`: the decimal lies among the reals that round to the given double.
* `shortest`: the decimal with the fewest digits that reads back.
-/

namespace GraphMapping.Decimal

/-- The number `digits · 10 ^ exponent`. -/
structure Numeral where
  digits : Nat
  exponent : Int
deriving DecidableEq, Repr

/-- Which of two equally close decimals is taken. -/
inductive Tie where
  /-- The one whose last digit is even. -/
  | even
  /-- The larger one. -/
  | up
deriving DecidableEq, Repr

/-- Compare `a · 10 ^ i` with `b · 2 ^ j`. -/
def compareScaled (a : Nat) (i : Int) (b : Nat) (j : Int) : Ordering :=
  compare (a * Nat.pow 10 i.toNat * Nat.pow 2 (-j).toNat)
    (b * Nat.pow 2 j.toNat * Nat.pow 10 (-i).toNat)

/-- Below a power of two the doubles lie twice as close, except at the bottom of the range. -/
def narrowBelow (m : Nat) (q : Int) : Bool :=
  m == Nat.pow 2 52 && decide (-1074 < q)

/-- The decimal is one of the reals that round to `m · 2 ^ q`: between the midpoints to the two
neighbouring doubles, the midpoints included exactly when `m` is even. -/
def readsBack (m : Nat) (q : Int) (d : Numeral) : Bool :=
  let low := if narrowBelow m q then 4 * m - 1 else 4 * m - 2
  let high := 4 * m + 2
  let closed := m % 2 == 0
  let atLow := compareScaled d.digits d.exponent low (q - 2)
  let atHigh := compareScaled d.digits d.exponent high (q - 2)
  (atLow == .gt || closed && atLow == .eq) && (atHigh == .lt || closed && atHigh == .eq)

/-- The least `k` with `m · 2 ^ q < 10 ^ k`, found from an estimate that is at most a step low. -/
def scale (m : Nat) (q : Int) : Int :=
  let bits : Int := q + Nat.log2 m
  let estimate := (bits * 30103).fdiv 100000
  let reached := fun k : Int => compareScaled 1 k m q == .gt
  if reached estimate then estimate
  else if reached (estimate + 1) then estimate + 1
  else estimate + 2

/-- The multiple of `10 ^ e` at or below `m · 2 ^ q`, in units of `10 ^ e`. -/
def gridFloor (m : Nat) (q e : Int) : Nat :=
  (m * Nat.pow 2 q.toNat * Nat.pow 10 (-e).toNat) / (Nat.pow 2 (-q).toNat * Nat.pow 10 e.toNat)

/-- The better of the two neighbours on the grid of `10 ^ e`, if one of them reads back. -/
def onGrid? (tie : Tie) (m : Nat) (q e : Int) : Option Numeral :=
  let n := gridFloor m q e
  let below : Numeral := ⟨n, e⟩
  let above : Numeral := ⟨n + 1, e⟩
  match readsBack m q below, readsBack m q above with
  | true, true =>
    -- the midpoint of the two, in halves of the grid, against the value
    match compareScaled (2 * n + 1) e (2 * m) q with
    | .gt => some below
    | .lt => some above
    | .eq => some (match tie with
      | .up => above
      | .even => if n % 2 = 0 then below else above)
  | true, false => some below
  | false, true => some above
  | false, false => none

/-- Move zeros at the end of the digits into the exponent; at most `fuel` of them. -/
def stripZeros : Nat → Numeral → Numeral
  | 0, d => d
  | fuel + 1, d =>
    if d.digits ≠ 0 ∧ d.digits % 10 = 0 then stripZeros fuel ⟨d.digits / 10, d.exponent + 1⟩ else d

/-- The decimal with the fewest digits that reads back as `m · 2 ^ q`, for a positive `m`. Seventeen
digits are always enough; were they not, the exact value would be taken. -/
def shortest (tie : Tie) (m : Nat) (q : Int) : Numeral :=
  let k := scale m q
  let candidates := (List.range 17).findSome? fun (n : Nat) => onGrid? tie m q (k - (n + 1))
  stripZeros 20 (candidates.getD ⟨m * Nat.pow 2 q.toNat * Nat.pow 5 (-q).toNat, min q 0⟩)

end GraphMapping.Decimal
