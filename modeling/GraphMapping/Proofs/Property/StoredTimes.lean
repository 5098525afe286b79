import GraphMapping.Proofs.Property.EpochSeconds

/-!
# Points in time that survive as numbers

A property of points in time is stored as a number of seconds. What is read from the number is the
point in time that was written exactly if its nanoseconds are what a double tells of some fraction
of the second. All nanoseconds are within `2 ^ 23` seconds of 1970, leap seconds apart, which no
double tells.

A point in time that does not survive still keeps its number: what is read instead has the same one.
The exceptions are leap seconds near 1970, and the end of the range, where the number is rounded out
of the range and nothing is read at all. A leap second counts as the second after its own, which its
nanoseconds are carried into: for both exceptions it is this second that has to be near 1970 or at
the end.

## Main definitions

* `Told`: the points in time that doubles tell.
* `carriedSecond`: the second that a leap second is carried into.
* `StaysInRange`: the number is not rounded out of the range.
* `Kind.HoldsTime`: the kinds of such properties.

## Main results

* `ofEpochSeconds?_epochSeconds_iff`, `told_of_ofEpochSeconds?`: what survives is what is told,
  which is what is read from any double.
* `exists_ofEpochSeconds?_epochSeconds_iff`, `epochSeconds_eq_of_ofEpochSeconds?`: what is read
  instead keeps the number.
* `exists_ofEpochSeconds?_leap`: what a leap second near 1970 is read as.
* `Kind.toNative_float_iff`, `Kind.toGraph_float_iff`, `Kind.toGraph_epochSeconds_iff`: the same for
  properties.
-/

namespace GraphMapping

open Calendar (DateTime firstSecond lastSecond)
open Decimal

/-! ### Which points in time survive -/

section Survival

variable {t : DateTime}

/-- The nanoseconds are what a double tells of some fraction of the second, so that leap seconds
are not told. -/
def Told (t : DateTime) : Prop :=
  t.nanos < 10 ^ 9 ∧ ∃ k < 2 ^ fractionDigits t.seconds,
    t.nanos = nanosOfFraction k (fractionDigits t.seconds)

/-- All nanoseconds are told within `2 ^ 23` seconds of 1970. -/
theorem told_of_near (hnear : magnitude t.seconds < 2 ^ 23) (hn : t.nanos < 10 ^ 9) : Told t :=
  ⟨hn, exists_nanosOfFraction hn (le_fractionDigits hnear)⟩

theorem told_of_whole (hn : t.nanos = 0) : Told t := by
  refine ⟨by omega, 0, by positivity, ?_⟩
  rw [hn, nanosOfFraction, Nat.zero_mul, Nat.mul_zero, Nat.zero_add, Nat.div_eq_of_lt]
  exact Nat.pow_lt_pow_right one_lt_two (Nat.lt_succ_self _)

theorem near_iff {s : ℤ} : magnitude s < 2 ^ 23 ↔ -2 ^ 23 ≤ s ∧ s < 2 ^ 23 := by
  rw [magnitude]
  split <;> omega

/-- A point in time survives as a number of seconds exactly if it is told. Being told is a matter of
its seconds and nanoseconds, without any floating-point arithmetic. -/
theorem ofEpochSeconds?_epochSeconds_iff : ofEpochSeconds? (epochSeconds t) = some t ↔ Told t := by
  constructor
  · intro hread
    have hn := nanos_of_ofEpochSeconds? hread
    rcases lt_or_ge (magnitude t.seconds) (2 ^ 23) with hnear | hfar
    · exact told_of_near hnear hn
    · obtain ⟨hu, -, -⟩ := fractionDigits_spec (abs_seconds_le t) hfar
      obtain ⟨k, hk, hvalue⟩ := exists_epochSeconds_fraction hfar hn
      have hseconds := seconds_of_ofEpochSeconds? hvalue hread
      have hk : k < 2 ^ fractionDigits t.seconds := by
        refine hk.lt_of_ne fun hcarry => ?_
        rw [hcarry] at hseconds
        push_cast at hseconds
        rw [div_self (by positivity), Int.floor_add_one, Int.floor_intCast] at hseconds
        omega
      rw [ofEpochSeconds?_of_fraction hvalue hk hu
        ((abs_seconds_le t).trans (by norm_num))] at hread
      exact ⟨hn, k, hk, (DateTime.ofTimestamp?_eq_some hread).2⟩
  · rintro ⟨hn, k, hk, hnanos⟩
    rcases lt_or_ge (magnitude t.seconds) (2 ^ 23) with hnear | hfar
    · obtain ⟨hbegin, hend⟩ := near_iff.mp hnear
      rw [ofEpochSeconds?_of_near (c := 0) (m := t.nanos) (by omega) hn (by simpa using hbegin)
        (by simpa using hend), Nat.cast_zero, add_zero, DateTime.ofTimestamp?_of_lt t.inRange hn]
    · obtain ⟨hu, -, -⟩ := fractionDigits_spec (abs_seconds_le t) hfar
      rw [ofEpochSeconds?_of_fraction (epochSeconds_of_nanosOfFraction hfar hk hnanos) hk hu
        ((abs_seconds_le t).trans (by norm_num)), ← hnanos,
        DateTime.ofTimestamp?_of_lt t.inRange hn]

/-- The second that the number of a point in time lies in: a leap second is carried into the second
after its own. -/
def carriedSecond (t : DateTime) : ℤ := t.seconds + (t.nanos / 10 ^ 9 : ℕ)

theorem carriedSecond_of_lt (hn : t.nanos < 10 ^ 9) : carriedSecond t = t.seconds := by
  rw [carriedSecond, Nat.div_eq_of_lt hn, Nat.cast_zero, add_zero]

theorem carriedSecond_of_le (hn : 10 ^ 9 ≤ t.nanos) : carriedSecond t = t.seconds + 1 := by
  have hcarry : t.nanos / 10 ^ 9 = 1 := by
    have hlimit := t.inRange.2.2
    omega
  rw [carriedSecond, hcarry, Nat.cast_one]

/-- A leap second near 1970 is read as what is as much later. -/
theorem exists_ofEpochSeconds?_leap (hn : 10 ^ 9 ≤ t.nanos) (hlow : -2 ^ 23 ≤ carriedSecond t)
    (hhigh : carriedSecond t < 2 ^ 23) : ∃ t', ofEpochSeconds? (epochSeconds t) = some t' ∧
      t'.seconds = t.seconds + 1 ∧ t'.nanos + 10 ^ 9 = t.nanos := by
  rw [carriedSecond_of_le hn] at hlow hhigh
  have hlimit := t.inRange.2.2
  have hrange : Calendar.InRange (t.seconds + 1) (t.nanos - 10 ^ 9) := by
    rw [Calendar.InRange, firstSecond, lastSecond]
    omega
  refine ⟨⟨_, _, hrange⟩, ?_, rfl, Nat.sub_add_cancel hn⟩
  rw [ofEpochSeconds?_of_near (c := 1) (m := t.nanos - 10 ^ 9) (by omega) (by omega) hlow hhigh]
  exact DateTime.ofTimestamp?_of_lt hrange (by omega)

/-- Whatever is read from a double is told. -/
theorem told_of_ofEpochSeconds? {X : Float} (hread : ofEpochSeconds? X = some t) : Told t := by
  have hn := nanos_of_ofEpochSeconds? hread
  rcases lt_or_ge (magnitude t.seconds) (2 ^ 23) with hnear | hfar
  · exact told_of_near hnear hn
  · cases hvalue : Binary.ofFloat X with
    | nan =>
      have hzero : t.seconds = 0 := by
        simp only [ofEpochSeconds?, hvalue] at hread
        exact (DateTime.ofTimestamp?_eq_some hread).1
      rw [hzero] at hfar
      exact absurd hfar (by decide)
    | infinite negative =>
      have hseconds :
          t.seconds = if negative then DateTime.beforeRange else DateTime.afterRange := by
        simp only [ofEpochSeconds?, hvalue] at hread
        exact (DateTime.ofTimestamp?_eq_some hread).1
      obtain ⟨hfirst, hlast, -⟩ := t.inRange
      rw [hseconds] at hfirst hlast
      cases negative
      · exact absurd hlast (by decide)
      · exact absurd hfirst (by decide)
    | finite negative m e =>
      have hX : toRat? X = some (withSign negative m * 2 ^ e : ℚ) := by
        rw [toRat?, hvalue, Binary.toRat?]
      have hkept := epochSeconds_of_ofEpochSeconds? hX hread hfar
      rw [← hkept] at hread
      exact ofEpochSeconds?_epochSeconds_iff.mp hread

theorem toRat?_epochSeconds_whole (hn : t.nanos = 0) :
    toRat? (epochSeconds t) = some (t.seconds : ℚ) := by
  obtain ⟨f, x, ⟨hf, -⟩, ⟨hx, -⟩, hvalue⟩ :=
    exists_epochSeconds (t := t) (c := 0) (by omega) (by omega)
  rw [hn, Nat.cast_zero, zero_div] at hf
  rw [hf.eq_of_representable .zero, add_zero] at hx
  rw [hvalue, hx.eq_of_representable (.intCast ((abs_seconds_le t).trans (by norm_num)))]

/-! ### Which numbers are kept -/

/-- Reading gives a point in time as long as the range is not left. -/
theorem exists_ofEpochSeconds?_iff {X : Float} {x : ℚ} (hX : toRat? X = some x)
    (hx : |x| ≤ 2 ^ 52) :
    (∃ t, ofEpochSeconds? X = some t) ↔ firstSecond ≤ ⌊x⌋ ∧ ⌊x⌋ ≤ lastSecond := by
  obtain ⟨d, r, -, -, hread⟩ := exists_ofEpochSeconds? hX hx
  rw [hread]
  constructor
  · rintro ⟨t, ht⟩
    rw [← (DateTime.ofTimestamp?_eq_some ht).1]
    exact ⟨t.inRange.1, t.inRange.2.1⟩
  · rintro ⟨hfirst, hlast⟩
    exact ⟨_, DateTime.ofTimestamp?_of_lt ⟨hfirst, hlast, by omega⟩ (by omega)⟩

/-- The number of a point in time is not far off. -/
theorem exists_toRat?_epochSeconds (t : DateTime) : ∃ x, toRat? (epochSeconds t) = some x ∧
    |x| ≤ 2 ^ 52 ∧ x ≤ carriedSecond t + 1 ∧ carriedSecond t ≤ ⌊x⌋ ∧
      ⌊x⌋ ≤ carriedSecond t + 1 := by
  have hn := t.inRange.2.2
  obtain ⟨f, x, -, ⟨-, hlow, hhigh⟩, hvalue⟩ := exists_epochSeconds (t := t) (c := t.nanos / 10 ^ 9)
    (Nat.div_mul_le_self _ _) (by omega)
  have hs : |(t.seconds : ℚ)| ≤ 2 ^ 43 := by exact_mod_cast abs_seconds_le t
  have hcarry : t.nanos / 10 ^ 9 ≤ 1 := by omega
  rw [carriedSecond]
  generalize t.nanos / 10 ^ 9 = c at hlow hhigh hcarry ⊢
  have hcarry : (c : ℚ) ≤ 1 := by exact_mod_cast hcarry
  have hnonneg : (0 : ℚ) ≤ c := c.cast_nonneg
  push_cast
  refine ⟨x, hvalue, ?_, hhigh, Int.le_floor.mpr (by exact_mod_cast hlow), ?_⟩
  · rw [abs_le] at hs ⊢
    exact ⟨by linarith, by linarith⟩
  · rw [← Int.cast_le (R := ℚ)]
    push_cast
    exact (Int.floor_le x).trans hhigh

/-- The number is not rounded out of the range. In the last second this happens from the last half
of the last fraction on; a leap second counts with what is over its own second. -/
def StaysInRange (t : DateTime) : Prop :=
  carriedSecond t < lastSecond ∨ carriedSecond t = lastSecond ∧ t.nanos % 10 ^ 9 < 999511719

/-- In the last second of the range doubles are 1024th parts of a second. -/
theorem exists_fraction_of_lastSecond (hlast : carriedSecond t = lastSecond) {x : ℚ}
    (hvalue : toRat? (epochSeconds t) = some x) :
    (∃ k : ℕ, x = lastSecond + k / 2 ^ 10) ∧
      |x - (lastSecond + (t.nanos % 10 ^ 9 : ℕ) / 10 ^ 9)| ≤ 1 / 2 ^ 11 + 1 / 2 ^ 53 := by
  have hlastSecond : (lastSecond : ℚ) = 8210266876799 := by
    rw [lastSecond]
    norm_num
  have hdigits : fractionDigits lastSecond = 10 := by decide
  have hseconds : (t.seconds + (t.nanos / 10 ^ 9 : ℕ) : ℚ) = lastSecond := by
    rw [← hlast, carriedSecond, Int.cast_add, Int.cast_natCast]
  have hrest : (t.seconds + t.nanos / 10 ^ 9 : ℚ) =
      lastSecond + (t.nanos % 10 ^ 9 : ℕ) / 10 ^ 9 := by
    have hsplit : (t.nanos : ℚ) = 10 ^ 9 * (t.nanos / 10 ^ 9 : ℕ) + (t.nanos % 10 ^ 9 : ℕ) := by
      exact_mod_cast (Nat.div_add_mod t.nanos (10 ^ 9)).symm
    rw [← hseconds, hsplit, add_div, mul_div_cancel_left₀ _ (by norm_num), add_assoc]
  obtain ⟨f, y, ⟨hf, hflow, hfhigh⟩, ⟨hx, hlow, hhigh⟩, hvalue'⟩ :=
    exists_epochSeconds (t := t) (c := t.nanos / 10 ^ 9) (Nat.div_mul_le_self _ _) (by
      have hlimit := Nat.lt_div_mul_add (a := t.nanos) (b := 10 ^ 9) (by norm_num)
      rw [add_mul, one_mul]
      exact hlimit.le)
  obtain rfl : x = y := Option.some.inj (hvalue.symm.trans hvalue')
  have hf := abs_fraction_sub_le hf t.inRange.2.2
  rw [hseconds] at hlow hhigh
  obtain ⟨k, -, hfraction⟩ := exists_fraction
    (onGrid_of_far (by decide) (by decide) hx.representable hlow hhigh) hlow hhigh
  rw [hdigits] at hfraction
  have hround := hx.abs_sub_le_half (e := -10) (by norm_num) (by
    rw [abs_of_nonneg (by linarith)]
    norm_num
    linarith)
  refine ⟨⟨k, hfraction⟩, ?_⟩
  rw [← hrest]
  norm_num at hround
  rw [abs_le] at hf hround ⊢
  exact ⟨by linarith, by linarith⟩

theorem lt_iff_of_lastSecond (hlast : carriedSecond t = lastSecond) {x : ℚ}
    (hvalue : toRat? (epochSeconds t) = some x) :
    x < lastSecond + 1 ↔ t.nanos % 10 ^ 9 < 999511719 := by
  obtain ⟨⟨k, rfl⟩, hround⟩ := exists_fraction_of_lastSecond hlast hvalue
  generalize t.nanos % 10 ^ 9 = r at hround ⊢
  rw [add_sub_add_left_eq_sub, abs_le] at hround
  rw [add_lt_add_iff_left]
  constructor
  · intro hlt
    have hk : k ≤ 1023 := by
      rw [div_lt_one (by norm_num)] at hlt
      exact Nat.le_of_lt_succ (by exact_mod_cast hlt)
    have hk : (k : ℚ) ≤ 1023 := by exact_mod_cast hk
    have hlt : (r : ℚ) < (999511719 : ℕ) := by
      push_cast
      linarith
    exact_mod_cast hlt
  · intro hlt
    have hle : (r : ℚ) ≤ 999511718 := by exact_mod_cast Nat.le_of_lt_succ hlt
    linarith

/-- A number is read as some point in time unless it has left the range of points in time. It does
so at the very end only, where nanoseconds are rounded up or a leap second is carried over. -/
theorem exists_ofEpochSeconds?_epochSeconds_iff :
    (∃ t', ofEpochSeconds? (epochSeconds t) = some t') ↔ StaysInRange t := by
  obtain ⟨x, hvalue, hsize, -, hbegin, hend⟩ := exists_toRat?_epochSeconds t
  have hfirst : firstSecond ≤ carriedSecond t := t.inRange.1.trans (by rw [carriedSecond]; omega)
  rw [exists_ofEpochSeconds?_iff hvalue hsize, StaysInRange]
  rcases lt_trichotomy (carriedSecond t) lastSecond with hlt | hlast | hgt
  · exact ⟨fun _ => .inl hlt, fun _ => ⟨hfirst.trans hbegin, by omega⟩⟩
  · have hfloor : ⌊x⌋ ≤ lastSecond ↔ x < lastSecond + 1 := by
      rw [← Int.lt_add_one_iff, Int.floor_lt]
      push_cast
      rfl
    rw [hfloor, lt_iff_of_lastSecond hlast hvalue]
    exact ⟨fun h => .inr ⟨hlast, h.2⟩,
      fun h => ⟨hfirst.trans hbegin, (h.resolve_left hlast.not_lt).2⟩⟩
  · exact ⟨fun h => absurd (hbegin.trans h.2) hgt.not_ge, fun h => by omega⟩

/-- The number is kept by what is read from it, leap seconds near 1970 apart. -/
theorem epochSeconds_eq_of_ofEpochSeconds? {t' : DateTime}
    (ht : t.nanos < 10 ^ 9 ∨ 2 ^ 23 ≤ magnitude (carriedSecond t))
    (hread : ofEpochSeconds? (epochSeconds t) = some t') : epochSeconds t' = epochSeconds t := by
  obtain ⟨x, hvalue, -, hhigh, hbegin, hend⟩ := exists_toRat?_epochSeconds t
  have hseconds := seconds_of_ofEpochSeconds? hvalue hread
  rcases lt_or_ge (magnitude (carriedSecond t)) (2 ^ 23) with hnear | hfar
  · have hn : t.nanos < 10 ^ 9 := ht.resolve_right hnear.not_ge
    rw [carriedSecond_of_lt hn] at hnear
    have hkept := ofEpochSeconds?_epochSeconds_iff.mpr (told_of_near hnear hn)
    rw [Option.some.inj (hkept.symm.trans hread)]
  rcases lt_or_ge (magnitude t'.seconds) (2 ^ 23) with hnear | hfar'
  · -- the number is the whole second at which the finer fractions begin
    have hfar := near_iff.not.mp hfar.not_gt
    obtain ⟨hfirst', hlast'⟩ := near_iff.mp hnear
    have hnext : t'.seconds = carriedSecond t + 1 := by omega
    have hwhole : x = t'.seconds := by
      refine le_antisymm ?_ (hseconds ▸ Int.floor_le x)
      rw [hnext]
      push_cast
      exact hhigh
    have hnonzero : (t'.seconds : ℚ) ≠ 0 := by exact_mod_cast (by omega : t'.seconds ≠ 0)
    rw [hwhole] at hvalue
    have hfraction : toRat? (epochSeconds t) = some (t'.seconds + (0 : ℕ) / 2 ^ 0 : ℚ) := by
      simpa using hvalue
    rw [ofEpochSeconds?_of_fraction hfraction (by norm_num) (by norm_num)
      ((abs_seconds_le t').trans (by norm_num))] at hread
    exact eq_of_toRat?_eq (toRat?_epochSeconds_whole (DateTime.ofTimestamp?_eq_some hread).2) hvalue
      hnonzero
  · exact epochSeconds_of_ofEpochSeconds? hvalue hread hfar'

end Survival

/-! ### Properties that hold points in time -/

namespace Kind

/-- The kinds whose values are points in time. -/
def HoldsTime (kind : Kind) : Prop := kind = dateTime ∨ kind = timestamp

variable {kind : Kind} {t : DateTime}

theorem toGraph_of_toNative (hkind : kind.HoldsTime) {value : Value}
    (h : kind.toNative value = .dateTime t) : kind.toGraph value = .float (epochSeconds t) := by
  rcases hkind with rfl | rfl <;> simp only [toGraph, h]

theorem toNative_float (hkind : kind.HoldsTime) (X : Float) :
    kind.toNative (.float X) = (ofEpochSeconds? X).elim .null .dateTime := by
  rcases hkind with rfl | rfl <;> rfl

/-- A stored number is read as the point in time that it stands for, if any. -/
theorem toNative_float_iff (hkind : kind.HoldsTime) {X : Float} :
    kind.toNative (.float X) = .dateTime t ↔ ofEpochSeconds? X = some t := by
  rw [toNative_float hkind]
  cases ofEpochSeconds? X <;> simp

/-- A stored number is stored again if the point in time that it stands for has this number. -/
theorem toGraph_float_iff (hkind : kind.HoldsTime) {X : Float} :
    kind.toGraph (.float X) = .float X ↔ ∃ t, ofEpochSeconds? X = some t ∧ epochSeconds t = X := by
  have hnative := toNative_float hkind X
  cases hread : ofEpochSeconds? X with
  | none =>
    rw [hread, Option.elim_none] at hnative
    have hgraph : kind.toGraph (.float X) = .null := by
      rcases hkind with rfl | rfl <;> simp only [toGraph, hnative]
    simp [hgraph]
  | some t =>
    rw [hread, Option.elim_some] at hnative
    simp [toGraph_of_toNative hkind hnative]

/-- The number of a point in time is stored again unless it leaves the range, leap seconds near 1970
apart. -/
theorem toGraph_epochSeconds_iff (hkind : kind.HoldsTime)
    (ht : t.nanos < 10 ^ 9 ∨ carriedSecond t < -2 ^ 23 ∨ 2 ^ 23 ≤ carriedSecond t) :
    kind.toGraph (.float (epochSeconds t)) = .float (epochSeconds t) ↔ StaysInRange t := by
  have hfar : t.nanos < 10 ^ 9 ∨ 2 ^ 23 ≤ magnitude (carriedSecond t) := ht.imp_right fun hfar => by
    rw [← not_lt, near_iff]
    omega
  rw [toGraph_float_iff hkind, ← exists_ofEpochSeconds?_epochSeconds_iff]
  exact ⟨fun ⟨t', hread, _⟩ => ⟨t', hread⟩,
    fun ⟨t', hread⟩ => ⟨t', hread, epochSeconds_eq_of_ofEpochSeconds? hfar hread⟩⟩

end Kind

end GraphMapping
