import GraphMapping.Calendar.DateTime
import GraphMapping.Decimal.Read

/-!
# Timestamps as text

The format `2024-02-29T12:30:05.250Z` of RFC 3339. Written, a year outside 0 to 9999 is signed, a
fraction has 0, 3, 6 or 9 digits, whichever is exact first, and the mark of coordinated universal
time is the caller's choice. Read, the year has four digits, the fraction any number of digits of
which nine count, and the time may be given at an offset of hours and minutes.

## Main definitions

* `DateTime.format`: a point in time as text.
* `DateTime.parse?`: the point in time that a text stands for.
-/

namespace GraphMapping.Calendar.DateTime

open Decimal (isDigit digitsValue)

/-! ### Writing -/

/-- A number in decimal with zeros in front up to `width` digits. -/
def padded (width n : Nat) : String :=
  let digits := toString n
  String.ofList (List.replicate (width - digits.length) '0') ++ digits

/-- The year: four digits from 0 to 9999, otherwise a sign and at least four digits. -/
def formatYear (year : Int) : String :=
  if 0 ≤ year ∧ year ≤ 9999 then padded 4 year.toNat
  else (if year < 0 then "-" else "+") ++ padded 4 year.natAbs

/-- The fraction of a second: nothing, or as many thousandths as are needed. -/
def formatFraction (nanos : Nat) : String :=
  if nanos = 0 then ""
  else if nanos % 1000000 = 0 then "." ++ padded 3 (nanos / 1000000)
  else if nanos % 1000 = 0 then "." ++ padded 6 (nanos / 1000)
  else "." ++ padded 9 nanos

/-- The point in time as text, ending in `utcMark`. A leap second is second 60 of its minute. -/
def format (utcMark : String) (t : DateTime) : String :=
  let date := Date.ofDays t.dayNumber
  let leap := t.nanos / 1000000000
  let second := t.secondOfDay % 60 + leap
  formatYear date.year ++ "-" ++ padded 2 date.month ++ "-" ++ padded 2 date.day ++ "T" ++
    padded 2 (t.secondOfDay / 3600) ++ ":" ++ padded 2 (t.secondOfDay / 60 % 60) ++ ":" ++
    padded 2 second ++ formatFraction (t.nanos % 1000000000) ++ utcMark

/-! ### Reading -/

/-- A number of exactly `width` digits at the front of a text. -/
def number? (width : Nat) (cs : List Char) : Option (Nat × List Char) :=
  let ds := cs.take width
  if ds.length = width ∧ ds.all isDigit then some (digitsValue ds, cs.drop width) else none

/-- The text after the character `c`. -/
def after? (c : Char) (cs : List Char) : Option (List Char) :=
  match cs with
  | d :: rest => if d = c then some rest else none
  | [] => none

/-- A date of the form `2024-02-29`. -/
def date? (cs : List Char) : Option (Date × List Char) := do
  let (year, cs) ← number? 4 cs
  let (month, cs) ← number? 2 (← after? '-' cs)
  let (day, cs) ← number? 2 (← after? '-' cs)
  let date : Date := ⟨year, month, day⟩
  if date.Valid then some (date, cs) else none

/-- The nanoseconds after a point: nine digits count, and the rest are passed over. -/
def fraction? (cs : List Char) : Option (Nat × List Char) :=
  match cs with
  | '.' :: cs =>
    let ds := cs.takeWhile isDigit
    let counted := ds.take 9
    if ds = [] then none
    else some (digitsValue counted * Nat.pow 10 (9 - counted.length), cs.dropWhile isDigit)
  | cs => some (0, cs)

/-- A time of the form `12:30:05.250`, as the second of the day and the nanoseconds into it. Second
60 is the leap second after second 59. -/
def time? (cs : List Char) : Option ((Nat × Nat) × List Char) := do
  let (hour, cs) ← number? 2 cs
  let (minute, cs) ← number? 2 (← after? ':' cs)
  let (second, cs) ← number? 2 (← after? ':' cs)
  let (nanos, cs) ← fraction? cs
  if hour ≤ 23 ∧ minute ≤ 59 ∧ second ≤ 60 then
    let leap := second / 60
    some ((hour * 3600 + minute * 60 + (second - leap), nanos + leap * 1000000000), cs)
  else none

/-- The offset from universal time at the end of a text, in seconds: `Z`, or a sign (the minus sign
proper is one), hours and minutes, less than a day. -/
def offset? (cs : List Char) : Option Int := do
  let (sign, cs) ← match cs with
    | ['Z'] | ['z'] => return 0
    | '+' :: cs => some ((1 : Int), cs)
    | '-' :: cs | '−' :: cs => some ((-1 : Int), cs)
    | _ => none
  let (hours, cs) ← number? 2 cs
  let (minutes, cs) ← number? 2 (← after? ':' cs)
  if cs = [] ∧ minutes ≤ 59 ∧ hours ≤ 23 then some (sign * (hours * 3600 + minutes * 60)) else none

/-- The point in time that a text stands for. -/
def parse? (s : String) : Option DateTime := do
  let (date, cs) ← date? s.toList
  let cs ← match cs with
    | 'T' :: cs | 't' :: cs | ' ' :: cs => some cs
    | _ => none
  let ((second, nanos), cs) ← time? cs
  let offset ← offset? cs
  ofTimestamp? (date.toDays * 86400 + second - offset) nanos

end GraphMapping.Calendar.DateTime
