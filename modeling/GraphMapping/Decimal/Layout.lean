import GraphMapping.Decimal.Shortest

/-!
# Writing a double

Which digits to write is settled by `shortest`; how to lay them out is a decision of the format. A
`Layout` collects those decisions, and `Layout.write` follows them. Two formats of this library
write doubles, each with a layout of its own defined where that format is defined.

## Main definitions

* `Layout`: the decisions of a format.
* `Layout.write`: the text of a double.
-/

namespace GraphMapping.Decimal

/-- How a format writes doubles. -/
structure Layout where
  /-- Which of two equally close decimals is written. -/
  tie : Tie
  /-- The positions of the decimal point, counted from before the first digit, for which the number
  is written without an exponent. -/
  positional : Int → Bool
  /-- What follows a whole number written without an exponent. -/
  wholeMark : String
  nan : String
  infinity : String
  negativeInfinity : String

namespace Layout

private def zeros (n : Nat) : String := String.ofList (List.replicate n '0')

/-- Digits with a decimal point before the one at position `point` and no exponent. -/
def writePositional (layout : Layout) (digits : String) (point : Int) : String :=
  if point ≤ 0 then "0." ++ zeros (-point).toNat ++ digits
  else if digits.length ≤ point then
    digits ++ zeros (point.toNat - digits.length) ++ layout.wholeMark
  else
    String.ofList (digits.toList.take point.toNat) ++ "." ++
      String.ofList (digits.toList.drop point.toNat)

/-- Digits with the point after the first one and a signed exponent. -/
def writeScientific (digits : String) (point : Int) : String :=
  let mantissa := match digits.toList with
    | [] => ""
    | [d] => String.singleton d
    | d :: rest => String.singleton d ++ "." ++ String.ofList rest
  let exponent := point - 1
  mantissa ++ "e" ++ (if exponent < 0 then "-" else "+") ++ toString exponent.natAbs

/-- The text of a double. -/
def write (layout : Layout) (x : Float) : String :=
  match Binary.ofFloat x with
  | .nan => layout.nan
  | .infinite negative => if negative then layout.negativeInfinity else layout.infinity
  | .finite negative m q =>
    let sign := if negative then "-" else ""
    if m = 0 then sign ++ "0" ++ layout.wholeMark
    else
      let d := shortest layout.tie m q
      let digits := toString d.digits
      let point : Int := digits.length + d.exponent
      sign ++ if layout.positional point then layout.writePositional digits point
        else writeScientific digits point

end Layout

end GraphMapping.Decimal
