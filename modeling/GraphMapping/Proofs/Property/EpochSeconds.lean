import GraphMapping.Property.Kind
import GraphMapping.Proofs.Decimal.Nearest

/-!
# Points in time as numbers of seconds

A point in time is written as a double: the nanoseconds are divided by a billion and the whole
seconds are added. It is read back by taking the floor, subtracting this, multiplying the rest by a
billion and rounding. All of these operations round, and the proofs keep to what closeness says
about each.

A second has as many binary digits behind the point as the distance from 1970 leaves of 53, and the
doubles within it are the multiples of the last of these. Beyond `2 ^ 23` seconds the multiples are
coarser than nanoseconds: they are read without any rounding but the last, and each is the number of
the nanoseconds that it is read as. Nearer to 1970 they are finer, and all rounding together stays
below half a nanosecond.

## Main definitions

* `magnitude`, `fractionDigits`: the distance of a second from 1970, and its digits behind the
  point.
* `nanosOfFraction`: a fraction of a second in nanoseconds.

## Main results

* `exists_epochSeconds`, `exists_ofEpochSeconds?`: the two directions in exact numbers.
* `exists_epochSeconds_fraction`, `ofEpochSeconds?_of_fraction`: the two directions far from 1970.
* `epochSeconds_of_nanosOfFraction`, `epochSeconds_of_ofEpochSeconds?`: what comes back far from
  1970.
* `ofEpochSeconds?_of_near`: what comes back near 1970.
-/

namespace GraphMapping

open Calendar (DateTime firstSecond lastSecond)
open Decimal

/-! ### The two directions in exact numbers -/

theorem Decimal.toRat?_billion : toRat? 1e9 = some (10 ^ 9) := by
  have hbits : Binary.ofFloat 1e9 = .finite false (1000000000 * 2 ^ 23) (-23) := rfl
  rw [toRat?, hbits, Binary.toRat?, withSign]
  norm_num

theorem abs_seconds_le (t : DateTime) : |t.seconds| ≤ 2 ^ 43 := by
  obtain ⟨hlow, hhigh, -⟩ := t.inRange
  rw [firstSecond] at hlow
  rw [lastSecond] at hhigh
  exact abs_le.mpr ⟨by omega, by omega⟩

section Fraction

variable {n : ℕ} {f : ℚ}

/-- Rounding keeps a fraction of a second from going past whole seconds. -/
theorem fraction_mem (h : Closest f (n / 10 ^ 9)) {c : ℕ} (hc : c ≤ 2 ^ 52) (hlow : c * 10 ^ 9 ≤ n)
    (hhigh : n ≤ (c + 1) * 10 ^ 9) : (c : ℚ) ≤ f ∧ f ≤ c + 1 := by
  have hbegin : Representable ((c : ℤ) : ℚ) := .intCast (by rw [Nat.abs_cast]; omega)
  have hend : Representable (((c + 1 : ℕ) : ℤ) : ℚ) := .intCast (by rw [Nat.abs_cast]; omega)
  rw [Int.cast_natCast] at hbegin hend
  have hlow : (c : ℚ) ≤ n / 10 ^ 9 := by
    rw [le_div_iff₀ (by norm_num)]
    exact_mod_cast hlow
  have hhigh : (n / 10 ^ 9 : ℚ) ≤ (c + 1 : ℕ) := by
    rw [div_le_iff₀ (by norm_num)]
    exact_mod_cast hhigh
  refine ⟨h.ge_of_ge hbegin hlow, ?_⟩
  have hle := h.le_of_le hend hhigh
  exact_mod_cast hle

/-- A fraction of a second is rounded very finely. -/
theorem abs_fraction_sub_le (h : Closest f (n / 10 ^ 9)) (hn : n < 2 * 10 ^ 9) :
    |f - n / 10 ^ 9| ≤ 1 / 2 ^ 53 := by
  refine (h.abs_sub_le_half (e := -52) (by norm_num) ?_).trans (by norm_num)
  have hle : (n : ℚ) ≤ 2 * 10 ^ 9 := by exact_mod_cast hn.le
  rw [abs_of_nonneg (by positivity), div_le_iff₀ (by norm_num)]
  norm_num
  linarith

end Fraction

/-- The number of a point in time: the fraction is rounded, and then the sum. Neither goes past the
whole seconds around it; a leap second lies in the second that comes after its own. -/
theorem exists_epochSeconds {t : DateTime} {c : ℕ} (hlow : c * 10 ^ 9 ≤ t.nanos)
    (hhigh : t.nanos ≤ (c + 1) * 10 ^ 9) : ∃ f x : ℚ,
      (Closest f (t.nanos / 10 ^ 9) ∧ c ≤ f ∧ f ≤ c + 1) ∧
        (Closest x (t.seconds + f) ∧ t.seconds + c ≤ x ∧ x ≤ t.seconds + c + 1) ∧
          toRat? (epochSeconds t) = some x := by
  have hnanos : t.nanos < 2 * 10 ^ 9 := t.inRange.2.2
  have hseconds := abs_seconds_le t
  have hc : (c : ℚ) ≤ 1 := by
    have hle : c ≤ 1 := by omega
    exact_mod_cast hle
  have hquotient : |((t.nanos : ℤ) / 10 ^ 9 : ℚ)| ≤ 2 ^ 53 := by
    have hle : (t.nanos : ℚ) ≤ 2 * 10 ^ 9 := by exact_mod_cast hnanos.le
    rw [Int.cast_natCast, abs_of_nonneg (by positivity), div_le_iff₀ (by norm_num)]
    linarith
  obtain ⟨f, hf, hfclosest⟩ := rounds_div (toRat?_ofInt (i := t.nanos) (by
    rw [Nat.abs_cast]
    omega)) toRat?_billion (by norm_num) (lt_bound (hquotient.trans (by norm_num)))
  rw [Int.cast_natCast] at hfclosest
  obtain ⟨hflow, hfhigh⟩ := fraction_mem hfclosest (by omega) hlow hhigh
  have hsum : |(t.seconds + f : ℚ)| ≤ 2 ^ 53 := by
    have hseconds : |(t.seconds : ℚ)| ≤ 2 ^ 43 := by exact_mod_cast hseconds
    rw [abs_le] at hseconds ⊢
    exact ⟨by linarith [c.cast_nonneg (α := ℚ)], by linarith⟩
  obtain ⟨x, hx, hxclosest⟩ := rounds_add
    (toRat?_ofInt (hseconds.trans (by norm_num))) hf (lt_bound (hsum.trans (by norm_num)))
  rw [abs_le] at hseconds
  have hbegin : Representable ((t.seconds + c : ℤ) : ℚ) :=
    .intCast (abs_le.mpr ⟨by omega, by omega⟩)
  have hend : Representable ((t.seconds + c + 1 : ℤ) : ℚ) :=
    .intCast (abs_le.mpr ⟨by omega, by omega⟩)
  push_cast at hbegin hend
  exact ⟨f, x, ⟨hfclosest, hflow, hfhigh⟩, ⟨hxclosest,
    hxclosest.ge_of_ge hbegin (by linarith), hxclosest.le_of_le hend (by linarith)⟩, hx⟩

/-- The point in time at a number: the rest behind the whole seconds and the same in nanoseconds are
each rounded. -/
theorem exists_ofEpochSeconds? {X : Float} {x : ℚ} (hX : toRat? X = some x) (hx : |x| ≤ 2 ^ 52) :
    ∃ d r, Closest d (x - ⌊x⌋) ∧ Closest r (d * 10 ^ 9) ∧
      ofEpochSeconds? X = DateTime.ofTimestamp? ⌊x⌋ (min ⌊r + 1 / 2⌋.toNat 999999999) := by
  have hfloor : |⌊x⌋| ≤ 2 ^ 53 := by
    have hlow : ((-2 ^ 52 : ℤ) : ℚ) ≤ x := by
      push_cast
      exact (abs_le.mp hx).1
    have hhigh : x < ((2 ^ 52 + 1 : ℤ) : ℚ) := by
      push_cast
      linarith [(abs_le.mp hx).2]
    have hlow := Int.le_floor.mpr hlow
    have hhigh := Int.floor_lt.mpr hhigh
    exact abs_le.mpr ⟨by omega, by omega⟩
  have hrest : 0 ≤ x - ⌊x⌋ ∧ x - ⌊x⌋ ≤ 1 :=
    ⟨sub_nonneg.mpr (Int.floor_le x), by linarith [Int.lt_floor_add_one x]⟩
  obtain ⟨d, hd, hdclosest⟩ := rounds_sub hX (toRat?_ofInt hfloor)
    (lt_bound (abs_le.mpr ⟨by linarith, by linarith⟩))
  have hlow : 0 ≤ d := hdclosest.ge_of_ge .zero hrest.1
  have hhigh : d ≤ (1 : ℤ) := hdclosest.le_of_le (.intCast (by norm_num)) (by simpa using hrest.2)
  push_cast at hhigh
  obtain ⟨r, hr, hrclosest⟩ := rounds_mul hd toRat?_billion
    (lt_bound (abs_le.mpr ⟨by linarith, by linarith⟩))
  obtain ⟨negative, m, e, hfinite, -⟩ := exists_of_toRat? hX
  refine ⟨d, r, hdclosest, hrclosest, ?_⟩
  simp only [ofEpochSeconds?, hfinite, floor?_eq hX, Option.getD_some]
  rw [roundHalfUp?_eq hr, Option.getD_some]

/-! ### The grid within a second -/

/-- How far from the start of 1970 a second is, counted in whole seconds on either side. -/
def magnitude (s : ℤ) : ℕ := (if 0 ≤ s then s else -s - 1).toNat

/-- The number of binary digits behind the point that every double within the second has. -/
def fractionDigits (s : ℤ) : ℕ := 52 - (magnitude s).log2

/-- So many of `2 ^ u` parts of a second in nanoseconds, a half going up. -/
def nanosOfFraction (k u : ℕ) : ℕ := (2 * (k * 10 ^ 9) + 2 ^ u) / 2 ^ (u + 1)

theorem nanosOfFraction_eq (k u : ℕ) :
    (nanosOfFraction k u : ℤ) = ⌊(k / 2 ^ u * 10 ^ 9 + 1 / 2 : ℚ)⌋ := by
  have hquotient : (k / 2 ^ u * 10 ^ 9 + 1 / 2 : ℚ) =
      ((2 * (k * 10 ^ 9) + 2 ^ u : ℕ) : ℚ) / ((2 ^ (u + 1) : ℕ) : ℚ) := by
    push_cast
    field_simp
    ring
  rw [hquotient, Rat.floor_natCast_div_natCast]
  rfl

/-- Rounding to nanoseconds goes half of one at most. -/
theorem abs_nanosOfFraction_sub_le (k u : ℕ) :
    |(nanosOfFraction k u / 10 ^ 9 - k / 2 ^ u : ℚ)| ≤ 1 / (2 * 10 ^ 9) := by
  have hlow := Int.floor_le (k / 2 ^ u * 10 ^ 9 + 1 / 2 : ℚ)
  have hhigh := Int.lt_floor_add_one (k / 2 ^ u * 10 ^ 9 + 1 / 2 : ℚ)
  rw [← nanosOfFraction_eq, Int.cast_natCast] at hlow hhigh
  rw [abs_le]
  constructor <;> linarith

/-- Short of a full second there is no carry, unless the parts are finer than nanoseconds. -/
theorem nanosOfFraction_lt {k u : ℕ} (hk : k < 2 ^ u) (hu : u ≤ 29) :
    nanosOfFraction k u < 10 ^ 9 := by
  have hpow : 2 ^ u ≤ 2 ^ 29 := Nat.pow_le_pow_right two_pos hu
  rw [nanosOfFraction, Nat.div_lt_iff_lt_mul (by positivity), pow_succ]
  omega

section Second

variable {s : ℤ} {x : ℚ}

theorem abs_mem_magnitude (hlow : s ≤ x) (hhigh : x ≤ s + 1) :
    (magnitude s : ℚ) ≤ |x| ∧ |x| ≤ magnitude s + 1 := by
  rcases le_or_gt 0 s with hs | hs
  · have hvalue : (magnitude s : ℚ) = s := by
      rw [magnitude, if_pos hs]
      exact_mod_cast Int.toNat_of_nonneg hs
    have hs : (0 : ℚ) ≤ s := by exact_mod_cast hs
    rw [hvalue, abs_of_nonneg (hs.trans hlow)]
    exact ⟨hlow, hhigh⟩
  · have hvalue : (magnitude s : ℚ) = -s - 1 := by
      rw [magnitude, if_neg hs.not_ge]
      exact_mod_cast Int.toNat_of_nonneg (by omega : 0 ≤ -s - 1)
    have hs : (s : ℚ) + 1 ≤ 0 := by exact_mod_cast hs
    rw [hvalue, abs_of_nonpos (hhigh.trans hs)]
    exact ⟨by linarith, by linarith⟩

/-- Far from 1970 the parts of a second are coarser than nanoseconds. The bounds say that such a
second with its parts just fills the 53 digits of a double. -/
theorem fractionDigits_spec (hs : |s| ≤ 2 ^ 43) (hfar : 2 ^ 23 ≤ magnitude s) :
    fractionDigits s ≤ 29 ∧ 2 ^ 52 ≤ magnitude s * 2 ^ fractionDigits s ∧
      (magnitude s + 1) * 2 ^ fractionDigits s ≤ 2 ^ 53 := by
  have hsize : magnitude s < 2 ^ 44 := by
    rw [abs_le] at hs
    rw [magnitude]
    split <;> omega
  have hne : magnitude s ≠ 0 := by omega
  have hlow : 23 ≤ (magnitude s).log2 := (Nat.le_log2 hne).mpr hfar
  have hhigh : (magnitude s).log2 < 44 := (Nat.log2_lt hne).mpr hsize
  have hdigits : (magnitude s).log2 + fractionDigits s = 52 := by
    rw [fractionDigits]
    omega
  refine ⟨by omega, ?_, ?_⟩
  · calc 2 ^ 52 = 2 ^ (magnitude s).log2 * 2 ^ fractionDigits s := by rw [← pow_add, hdigits]
      _ ≤ magnitude s * 2 ^ fractionDigits s :=
        Nat.mul_le_mul_right _ (Nat.log2_self_le hne)
  · calc (magnitude s + 1) * 2 ^ fractionDigits s
        ≤ 2 ^ ((magnitude s).log2 + 1) * 2 ^ fractionDigits s :=
          Nat.mul_le_mul_right _ Nat.lt_log2_self
      _ = 2 ^ 53 := by rw [← pow_add, Nat.add_right_comm, hdigits]

theorem zpow_neg_natCast (u : ℕ) : (2 : ℚ) ^ (-(u : ℤ)) = 1 / 2 ^ u := by
  rw [zpow_neg, zpow_natCast, one_div]

/-- Doubles within a second far from 1970 are on its grid. -/
theorem onGrid_of_far (hs : |s| ≤ 2 ^ 43) (hfar : 2 ^ 23 ≤ magnitude s) (hx : Representable x)
    (hlow : s ≤ x) (hhigh : x ≤ s + 1) : OnGrid (-(fractionDigits s : ℤ)) x := by
  obtain ⟨-, hdigits, -⟩ := fractionDigits_spec hs hfar
  refine hx.onGrid (le_trans ?_ (abs_mem_magnitude hlow hhigh).1)
  rw [zpow_neg_natCast, mul_one_div, div_le_iff₀ (by positivity)]
  exact_mod_cast hdigits

/-- The parts of a second that a number on the grid has. -/
theorem exists_fraction {u : ℕ} (hx : OnGrid (-(u : ℤ)) x) (hlow : s ≤ x) (hhigh : x ≤ s + 1) :
    ∃ k : ℕ, k ≤ 2 ^ u ∧ x = s + k / 2 ^ u := by
  obtain ⟨m, hm⟩ := hx
  rw [zpow_neg_natCast, mul_one_div, eq_div_iff (by positivity)] at hm
  have hpos : (0 : ℚ) < 2 ^ u := by positivity
  have hm0 : s * 2 ^ u ≤ m := by
    have hle : (s : ℚ) * 2 ^ u ≤ m := hm ▸ mul_le_mul_of_nonneg_right hlow hpos.le
    exact_mod_cast hle
  have hm1 : m ≤ (s + 1) * 2 ^ u := by
    have hle : (m : ℚ) ≤ (s + 1) * 2 ^ u := hm ▸ mul_le_mul_of_nonneg_right hhigh hpos.le
    exact_mod_cast hle
  have hnat : (((m - s * 2 ^ u).toNat : ℕ) : ℤ) = m - s * 2 ^ u :=
    Int.toNat_of_nonneg (sub_nonneg.mpr hm0)
  refine ⟨(m - s * 2 ^ u).toNat, ?_, ?_⟩
  · have hle : ((m - s * 2 ^ u).toNat : ℤ) ≤ ((2 ^ u : ℕ) : ℤ) := by
      rw [hnat]
      push_cast
      linarith
    exact_mod_cast hle
  · have hcast : (((m - s * 2 ^ u).toNat : ℕ) : ℚ) = m - s * 2 ^ u := by exact_mod_cast hnat
    rw [hcast, ← hm]
    field_simp
    ring

end Second

/-! ### Far from 1970 -/

/-- A number on the grid is read as the nanoseconds of its fraction: nothing is rounded before. -/
theorem ofEpochSeconds?_of_fraction {X : Float} {s : ℤ} {k u : ℕ}
    (hX : toRat? X = some (s + k / 2 ^ u : ℚ)) (hk : k < 2 ^ u) (hu : u ≤ 29) (hs : |s| ≤ 2 ^ 44) :
    ofEpochSeconds? X = DateTime.ofTimestamp? s (nanosOfFraction k u) := by
  have hpos : (0 : ℚ) < 2 ^ u := by positivity
  have hfraction : (0 : ℚ) ≤ k / 2 ^ u ∧ (k / 2 ^ u : ℚ) < 1 :=
    ⟨by positivity, (div_lt_one hpos).mpr (by exact_mod_cast hk)⟩
  have hs : |(s : ℚ)| ≤ 2 ^ 44 := by exact_mod_cast hs
  have hfloor : ⌊(s + k / 2 ^ u : ℚ)⌋ = s := by
    rw [Int.floor_intCast_add, Int.floor_eq_zero_iff.mpr hfraction, add_zero]
  obtain ⟨d, r, hd, hr, hread⟩ := exists_ofEpochSeconds? hX (by
    rw [abs_le] at hs ⊢
    exact ⟨by linarith, by linarith⟩)
  rw [hfloor] at hd hread
  have hsmall : k < 2 ^ 29 := hk.trans_le (Nat.pow_le_pow_right two_pos hu)
  have hdexact : d = k / 2 ^ u := by
    rw [add_sub_cancel_left] at hd
    refine hd.eq_of_representable ⟨k, -(u : ℤ), ?_, by omega, ?_⟩
    · rw [Nat.abs_cast]
      omega
    · rw [zpow_neg_natCast, mul_one_div, Int.cast_natCast]
  have hrexact : r = k / 2 ^ u * 10 ^ 9 := by
    rw [hdexact] at hr
    refine hr.eq_of_representable ⟨k * 5 ^ 9, 9 - u, ?_, by omega, ?_⟩
    · rw [abs_le]
      omega
    · rw [zpow_sub₀ two_ne_zero, zpow_natCast]
      push_cast
      rw [div_mul_eq_mul_div, mul_div_assoc']
      norm_num
      ring
  have hlt := nanosOfFraction_lt hk hu
  rw [hread, hrexact, ← nanosOfFraction_eq, Int.toNat_natCast, min_eq_left (by omega)]

section Far

variable {t : DateTime}

/-- Far from 1970 the number of a point in time is on the grid of its second. -/
theorem exists_epochSeconds_fraction (hfar : 2 ^ 23 ≤ magnitude t.seconds) (hn : t.nanos < 10 ^ 9) :
    ∃ k : ℕ, k ≤ 2 ^ fractionDigits t.seconds ∧
      toRat? (epochSeconds t) = some (t.seconds + k / 2 ^ fractionDigits t.seconds : ℚ) := by
  obtain ⟨f, x, -, ⟨hx, hlow, hhigh⟩, hvalue⟩ :=
    exists_epochSeconds (t := t) (c := 0) (by omega) (by omega)
  rw [Nat.cast_zero, add_zero] at hlow hhigh
  obtain ⟨k, hk, rfl⟩ := exists_fraction
    (onGrid_of_far (abs_seconds_le t) hfar hx.representable hlow hhigh) hlow hhigh
  exact ⟨k, hk, hvalue⟩

/-- Nanoseconds that tell a fraction on the grid get this fraction. -/
theorem epochSeconds_of_nanosOfFraction (hfar : 2 ^ 23 ≤ magnitude t.seconds) {k : ℕ}
    (hk : k < 2 ^ fractionDigits t.seconds)
    (hn : t.nanos = nanosOfFraction k (fractionDigits t.seconds)) :
    toRat? (epochSeconds t) = some (t.seconds + k / 2 ^ fractionDigits t.seconds : ℚ) := by
  obtain ⟨hu, -, hsize⟩ := fractionDigits_spec (abs_seconds_le t) hfar
  have hlt : t.nanos < 10 ^ 9 := hn ▸ nanosOfFraction_lt hk hu
  obtain ⟨f, x, ⟨hf, hflow, hfhigh⟩, ⟨hx, hlow, hhigh⟩, hvalue⟩ :=
    exists_epochSeconds (t := t) (c := 0) (by simp) (by simpa using hlt.le)
  rw [Nat.cast_zero] at hflow hfhigh
  rw [Nat.cast_zero, add_zero] at hlow hhigh
  have hgrid := onGrid_of_far (abs_seconds_le t) hfar hx.representable hlow hhigh
  have herr := abs_nanosOfFraction_sub_le k (fractionDigits t.seconds)
  have hround := hx.abs_sub_le_half (e := -(fractionDigits t.seconds : ℤ)) (by omega) (by
    refine (abs_mem_magnitude (s := t.seconds) (by linarith) (by linarith)).2.trans ?_
    rw [zpow_neg_natCast, mul_one_div, le_div_iff₀ (by positivity)]
    exact_mod_cast hsize)
  have hf := abs_fraction_sub_le hf t.inRange.2.2
  rw [← hn] at herr
  rw [zpow_neg_natCast] at hround
  have hcoarse : (1 : ℚ) / 2 ^ 29 ≤ 1 / 2 ^ fractionDigits t.seconds :=
    one_div_le_one_div_of_le (by positivity) (pow_le_pow_right₀ one_le_two hu)
  have heq : x = t.seconds + k / 2 ^ fractionDigits t.seconds := by
    refine hgrid.eq_of_abs_sub_lt ?_ ?_
    · refine ⟨t.seconds * 2 ^ fractionDigits t.seconds + k, ?_⟩
      rw [zpow_neg_natCast]
      push_cast
      field_simp
    · rw [zpow_neg_natCast]
      rw [abs_le] at hf herr hround
      rw [abs_lt]
      constructor <;> linarith
  rw [hvalue, heq]

theorem nanos_of_ofEpochSeconds? {X : Float} (hread : ofEpochSeconds? X = some t) :
    t.nanos < 10 ^ 9 := by
  rw [(DateTime.ofTimestamp?_eq_some hread).2]
  omega

theorem seconds_of_ofEpochSeconds? {X : Float} {x : ℚ} (hX : toRat? X = some x)
    (hread : ofEpochSeconds? X = some t) : t.seconds = ⌊x⌋ := by
  obtain ⟨negative, m, e, hfinite, -⟩ := exists_of_toRat? hX
  simp only [ofEpochSeconds?, hfinite, floor?_eq hX, Option.getD_some] at hread
  exact (DateTime.ofTimestamp?_eq_some hread).1

/-- Any double far from 1970 is the number of the point in time that it is read as. Doubles of this
size lie farther apart than nanoseconds. Nearer to 1970 they lie closer, and what is below a
nanosecond is lost in reading. -/
theorem epochSeconds_of_ofEpochSeconds? {X : Float} {x : ℚ} (hX : toRat? X = some x)
    (hread : ofEpochSeconds? X = some t) (hfar : 2 ^ 23 ≤ magnitude t.seconds) :
    epochSeconds t = X := by
  have hseconds := seconds_of_ofEpochSeconds? hX hread
  have hlow : (t.seconds : ℚ) ≤ x := hseconds ▸ Int.floor_le x
  have hhigh : x < t.seconds + 1 := hseconds ▸ Int.lt_floor_add_one x
  obtain ⟨hu, -, -⟩ := fractionDigits_spec (abs_seconds_le t) hfar
  obtain ⟨k, hk, rfl⟩ := exists_fraction
    (onGrid_of_far (abs_seconds_le t) hfar (representable_of_toRat? hX) hlow hhigh.le) hlow hhigh.le
  have hk : k < 2 ^ fractionDigits t.seconds := by
    rw [add_lt_add_iff_left, div_lt_one (by positivity)] at hhigh
    exact_mod_cast hhigh
  rw [ofEpochSeconds?_of_fraction hX hk hu ((abs_seconds_le t).trans (by norm_num))] at hread
  have hvalue := epochSeconds_of_nanosOfFraction hfar hk (DateTime.ofTimestamp?_eq_some hread).2
  refine eq_of_toRat?_eq hvalue hX fun hzero => ?_
  have hmagnitude := (abs_mem_magnitude hlow hhigh.le).1
  rw [hzero, abs_zero] at hmagnitude
  have hfar : (2 ^ 23 : ℚ) ≤ magnitude t.seconds := by exact_mod_cast hfar
  linarith

end Far

/-! ### Near 1970 -/

/-- A second that is not far has fractions finer than nanoseconds. -/
theorem le_fractionDigits {s : ℤ} (hnear : magnitude s < 2 ^ 23) : 30 ≤ fractionDigits s := by
  have hlog : (magnitude s).log2 < 23 := by
    rcases (magnitude s).eq_zero_or_pos with hzero | hpos
    · rw [hzero, Nat.log2_zero]
      norm_num
    · exact (Nat.log2_lt hpos.ne').mpr hnear
  rw [fractionDigits]
  omega

/-- All nanoseconds tell a fraction when the fractions are finer: `2 ^ 30` is the first power of two
above a billion. -/
theorem exists_nanosOfFraction {n u : ℕ} (hn : n < 10 ^ 9) (hu : 30 ≤ u) :
    ∃ k < 2 ^ u, n = nanosOfFraction k u := by
  have hfine : 2 ^ 30 ≤ 2 ^ u := Nat.pow_le_pow_right two_pos hu
  have hproduct : n * 2 ^ u ≤ (10 ^ 9 - 1) * 2 ^ u := Nat.mul_le_mul_right _ (by omega)
  refine ⟨(2 * (n * 2 ^ u) + 10 ^ 9) / (2 * 10 ^ 9), ?_, ?_⟩
  · rw [Nat.div_lt_iff_lt_mul (by norm_num)]
    omega
  · have hlow := Nat.div_mul_le_self (2 * (n * 2 ^ u) + 10 ^ 9) (2 * 10 ^ 9)
    have hhigh := Nat.lt_div_mul_add (a := 2 * (n * 2 ^ u) + 10 ^ 9) (b := 2 * 10 ^ 9) (by norm_num)
    generalize (2 * (n * 2 ^ u) + 10 ^ 9) / (2 * 10 ^ 9) = k at hlow hhigh ⊢
    have hdouble : n * 2 ^ (u + 1) = n * 2 ^ u * 2 := by rw [pow_succ, mul_assoc]
    have hdouble' : (n + 1) * 2 ^ (u + 1) = n * 2 ^ u * 2 + 2 ^ u * 2 := by
      rw [pow_succ, add_mul, mul_assoc, one_mul]
    exact (Nat.div_eq_of_lt_le (by omega) (by omega)).symm

section Near

variable {t : DateTime}

/-- What is closer to some nanoseconds of a second than half of one is read as these: reading itself
rounds much finer. -/
theorem ofEpochSeconds?_of_close {X : Float} {x : ℚ} {s : ℤ} {m : ℕ} (hX : toRat? X = some x)
    (hs : |s| ≤ 2 ^ 43) (hm : m < 10 ^ 9) (hlow : s ≤ x)
    (hclose : |x - (s + m / 10 ^ 9)| ≤ 1 / 2 ^ 31 + 1 / 2 ^ 53) :
    ofEpochSeconds? X = DateTime.ofTimestamp? s m := by
  have hm' : (m : ℚ) ≤ 10 ^ 9 - 1 := by
    have hle : ((m + 1 : ℕ) : ℚ) ≤ ((10 ^ 9 : ℕ) : ℚ) := Nat.cast_le.mpr hm
    push_cast at hle
    linarith
  rw [abs_le] at hclose
  have hhigh : x < s + 1 := by linarith
  have hfloor : ⌊x⌋ = s := Int.floor_eq_iff.mpr ⟨hlow, hhigh⟩
  have hs : |(s : ℚ)| ≤ 2 ^ 43 := by exact_mod_cast hs
  obtain ⟨d, r, hd, hr, hread⟩ := exists_ofEpochSeconds? hX (by
    rw [abs_le] at hs ⊢
    exact ⟨by linarith, by linarith⟩)
  rw [hfloor] at hd hread
  have hdlow : 0 ≤ d := hd.ge_of_ge .zero (by linarith)
  have hdhigh : d ≤ ((1 : ℤ) : ℚ) := hd.le_of_le (.intCast (by norm_num)) (by
    push_cast
    linarith)
  have hdround := hd.abs_sub_le_half (e := -53) (by norm_num) (by
    norm_num
    exact abs_le.mpr ⟨by linarith, by linarith⟩)
  push_cast at hdhigh
  have hrround := hr.abs_sub_le_half (e := -23) (by norm_num) (by
    rw [abs_of_nonneg (by linarith)]
    norm_num
    linarith)
  have hround : ⌊r + 1 / 2⌋ = m := by
    rw [Int.floor_eq_iff, Int.cast_natCast]
    norm_num at hdround hrround
    rw [abs_le] at hdround hrround
    exact ⟨by linarith, by linarith⟩
  rw [hread, hround, Int.toNat_natCast, min_eq_left (by omega)]

/-- Near 1970 all rounding together stays below half a nanosecond, so that no nanosecond is lost. A
leap second is read as what comes as much later. -/
theorem ofEpochSeconds?_of_near {c m : ℕ} (hnanos : t.nanos = c * 10 ^ 9 + m) (hm : m < 10 ^ 9)
    (hbegin : -2 ^ 23 ≤ t.seconds + c) (hend : t.seconds + c < 2 ^ 23) :
    ofEpochSeconds? (epochSeconds t) = DateTime.ofTimestamp? (t.seconds + c) m := by
  obtain ⟨f, x, ⟨hf, hflow, hfhigh⟩, ⟨hx, hlow, -⟩, hvalue⟩ :=
    exists_epochSeconds (t := t) (c := c) (by omega) (by omega)
  have hf := abs_fraction_sub_le hf t.inRange.2.2
  have hsecond : |t.seconds + c| ≤ 2 ^ 43 := abs_le.mpr ⟨by omega, by omega⟩
  have hbegin : (-2 ^ 23 : ℚ) ≤ t.seconds + c := by exact_mod_cast hbegin
  have hend : (t.seconds + c + 1 : ℚ) ≤ 2 ^ 23 := by exact_mod_cast hend
  have hround := hx.abs_sub_le_half (e := -30) (by norm_num) (by
    norm_num
    exact abs_le.mpr ⟨by linarith, by linarith⟩)
  have hfraction : (t.nanos / 10 ^ 9 : ℚ) = c + m / 10 ^ 9 := by
    rw [hnanos]
    push_cast
    ring
  refine ofEpochSeconds?_of_close hvalue hsecond hm (by exact_mod_cast hlow) ?_
  rw [hfraction] at hf
  norm_num at hround
  rw [abs_le] at hf hround ⊢
  push_cast
  exact ⟨by linarith, by linarith⟩

end Near

end GraphMapping
