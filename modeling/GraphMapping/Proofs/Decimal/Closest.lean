import Mathlib.Algebra.Order.Round
import Mathlib.Data.Rat.Floor
import Mathlib.Tactic.Linarith
import Mathlib.Tactic.NormNum
import Mathlib.Tactic.Ring

/-!
# The double closest to a number

A double has 53 binary digits, none of them below `2 ^ -1074`. Apart from the largest exponent,
which plays no part here, the numbers with such digits are the ones that doubles stand for, and
every operation gives one that is closest to its exact result. Which of two equally close numbers
it is, is left open: being closest is enough to show where rounding changes nothing, that it keeps
order, and how far it goes.

Above `2 ^ (52 + e)` all of these numbers are multiples of `2 ^ e`. This is what connects closeness
among all of them with closeness on a grid.

## Main definitions

* `OnGrid`: the multiples of a power of two.
* `Representable`: the numbers with 53 binary digits.
* `Closest`: a representable number than which none is closer.

## Main results

* `Closest.of_onGrid`, `Closest.of_natCast`: rounding on the right grid, and to 53 digits.
* `Closest.eq_of_representable`, `Closest.le_of_le`, `Closest.ge_of_ge`: exactness and order.
* `Closest.abs_sub_le_half`: how far rounding goes.
-/

namespace GraphMapping.Decimal

variable {v q r : ℚ} {e : ℤ}

/-! ### Grids -/

/-- The number is a multiple of `2 ^ e`. -/
def OnGrid (e : ℤ) (q : ℚ) : Prop := ∃ m : ℤ, q = m * 2 ^ e

namespace OnGrid

/-- A multiple of a power of two is a multiple of the smaller ones. -/
theorem of_le {e' : ℤ} (h : OnGrid e' q) (he : e ≤ e') : OnGrid e q := by
  obtain ⟨m, rfl⟩ := h
  refine ⟨m * 2 ^ (e' - e).toNat, ?_⟩
  have hpow : (2 : ℚ) ^ (e' - e).toNat = 2 ^ (e' - e) := by
    rw [← zpow_natCast, Int.toNat_of_nonneg (by omega)]
  rw [Int.cast_mul, Int.cast_pow, Int.cast_ofNat, hpow, mul_assoc, ← zpow_add₀ two_ne_zero,
    Int.sub_add_cancel]

theorem sub (h : OnGrid e q) (h' : OnGrid e r) : OnGrid e (q - r) := by
  obtain ⟨m, rfl⟩ := h
  obtain ⟨k, rfl⟩ := h'
  exact ⟨m - k, by rw [Int.cast_sub, sub_mul]⟩

/-- Different multiples of `2 ^ e` are `2 ^ e` apart. -/
theorem eq_of_abs_sub_lt (h : OnGrid e q) (h' : OnGrid e r) (hlt : |q - r| < 2 ^ e) : q = r := by
  obtain ⟨m, hm⟩ := h.sub h'
  have hpos : (0 : ℚ) < 2 ^ e := zpow_pos two_pos e
  rw [hm, abs_mul, abs_of_pos hpos] at hlt
  have hone : |(m : ℚ)| < 1 := (mul_lt_iff_lt_one_left hpos).mp hlt
  have hzero : m = 0 := Int.abs_lt_one_iff.mp (by exact_mod_cast hone)
  rw [hzero, Int.cast_zero, zero_mul] at hm
  exact sub_eq_zero.mp hm

end OnGrid

/-! ### Representable numbers -/

/-- The number has 53 binary digits, none of them below `2 ^ -1074`. -/
def Representable (q : ℚ) : Prop := ∃ m e : ℤ, |m| ≤ 2 ^ 53 ∧ -1074 ≤ e ∧ q = m * 2 ^ e

namespace Representable

theorem zero : Representable 0 := ⟨0, 0, by norm_num, by norm_num, by norm_num⟩

theorem intCast {i : ℤ} (h : |i| ≤ 2 ^ 53) : Representable i :=
  ⟨i, 0, h, by norm_num, by rw [zpow_zero, mul_one]⟩

theorem neg (h : Representable q) : Representable (-q) := by
  obtain ⟨m, e, hm, he, rfl⟩ := h
  exact ⟨-m, e, by rwa [abs_neg], he, by rw [Int.cast_neg, neg_mul]⟩

/-- Large numbers have no small digits: from `2 ^ 52` grid steps on, the 53 digits of a
representable number end at the grid. -/
theorem onGrid (h : Representable q) (hq : 2 ^ 52 * 2 ^ e ≤ |q|) : OnGrid e q := by
  obtain ⟨m, e', hm, -, rfl⟩ := h
  have hpos : (0 : ℚ) < 2 ^ e' := zpow_pos two_pos e'
  have hm' : |(m : ℚ)| ≤ 2 ^ 53 := by exact_mod_cast hm
  rcases le_or_gt e e' with hle | hlt
  · exact OnGrid.of_le ⟨m, rfl⟩ hle
  · -- the grid is coarser, so that the number is as small as it may be
    rw [abs_mul, abs_of_pos hpos] at hq
    have hcoarse : (2 : ℚ) * 2 ^ e' ≤ 2 ^ e := by
      rw [← zpow_one_add₀ two_ne_zero]
      exact zpow_le_zpow_right₀ one_le_two (by omega)
    have habs : |(m : ℚ)| = 2 ^ 53 := by
      refine le_antisymm hm' (le_of_mul_le_mul_right ?_ hpos)
      linarith
    have hpow : (2 : ℚ) ^ 53 * 2 ^ e' = 2 ^ 52 * 2 ^ e := by
      refine le_antisymm ?_ (by rwa [habs] at hq)
      linarith
    rcases (abs_eq (by positivity)).mp habs with hm | hm
    · exact ⟨2 ^ 52, by rw [hm, hpow]; norm_num⟩
    · exact ⟨-2 ^ 52, by rw [hm, neg_mul, hpow]; norm_num⟩

theorem onGrid_min (h : Representable q) : OnGrid (-1074) q := by
  obtain ⟨m, e, -, he, rfl⟩ := h
  exact OnGrid.of_le ⟨m, rfl⟩ he

end Representable

/-! ### Closest numbers -/

/-- The number is representable, and no representable number is closer to `q`. -/
structure Closest (v q : ℚ) : Prop where
  representable : Representable v
  abs_sub_le : ∀ r, Representable r → |v - q| ≤ |r - q|

/-- On a grid, what is at most half a step away is closest. -/
theorem OnGrid.le_abs_sub (hv : OnGrid e v) (hr : OnGrid e r) (herr : |v - q| ≤ 2 ^ e / 2) :
    |v - q| ≤ |r - q| := by
  by_cases heq : r = v
  · rw [heq]
  · have hfar : 2 ^ e ≤ |r - v| := le_of_not_gt fun hlt => heq (hr.eq_of_abs_sub_lt hv hlt)
    have htriangle : |r - v| ≤ |r - q| + |v - q| := by
      rw [abs_sub_comm v q]
      exact abs_sub_le r q v
    linarith

namespace Closest

/-- A number at most half a step away is closest when the grid is the finest that all numbers of
this size are on, or the finest there is. -/
theorem of_onGrid (hv : Representable v) (hgrid : OnGrid e v) (herr : |v - q| ≤ 2 ^ e / 2)
    (hfine : e = -1074 ∨ 2 ^ 52 * 2 ^ e ≤ |q|) : Closest v q := by
  refine ⟨hv, fun r hr => ?_⟩
  by_cases hon : OnGrid e r
  · exact hgrid.le_abs_sub hon herr
  · -- a number off the grid is further from `q` than the end of the finer grid is
    have hsmall : |r| < 2 ^ 52 * 2 ^ e := lt_of_not_ge fun hle => hon (hr.onGrid hle)
    have hlarge : 2 ^ 52 * 2 ^ e ≤ |q| :=
      hfine.resolve_left fun heq => hon (heq ▸ hr.onGrid_min)
    have hend : OnGrid e (2 ^ 52 * 2 ^ e) := ⟨2 ^ 52, by norm_num⟩
    have hend' : OnGrid e (-(2 ^ 52 * 2 ^ e)) := ⟨-2 ^ 52, by push_cast; ring⟩
    obtain ⟨hlow, hhigh⟩ := abs_lt.mp hsmall
    rcases le_abs.mp hlarge with hpos | hneg
    · refine (hgrid.le_abs_sub hend herr).trans ?_
      rw [abs_of_nonpos (by linarith), abs_of_nonpos (by linarith)]
      linarith
    · refine (hgrid.le_abs_sub hend' herr).trans ?_
      rw [abs_of_nonneg (by linarith), abs_of_nonneg (by linarith)]
      linarith

/-- Rounding to 53 digits: the number in units of `2 ^ e` is rounded to a natural that is at most
half a unit away. The digits are full unless the grid is the finest there is. -/
theorem of_natCast {n : ℕ} (he : -1074 ≤ e) (herr : |n - q / 2 ^ e| ≤ 1 / 2)
    (hsize : q ≤ 2 ^ 53 * 2 ^ e) (hfine : e = -1074 ∨ 2 ^ 52 * 2 ^ e ≤ q) :
    n ≤ 2 ^ 53 ∧ (e = -1074 ∨ 2 ^ 52 ≤ n) ∧ Closest (n * 2 ^ e) q := by
  have hpos : (0 : ℚ) < 2 ^ e := zpow_pos two_pos e
  obtain ⟨hlow, hhigh⟩ := abs_le.mp herr
  have hn : n ≤ 2 ^ 53 := by
    have hscaled : q / 2 ^ e ≤ 2 ^ 53 := (div_le_iff₀ hpos).mpr hsize
    have hlt : (n : ℚ) < ((2 ^ 53 + 1 : ℕ) : ℚ) := by
      push_cast
      linarith
    exact Nat.le_of_lt_succ (Nat.cast_lt.mp hlt)
  have hfull : e = -1074 ∨ 2 ^ 52 ≤ n := hfine.imp_right fun hle => by
    have hscaled : 2 ^ 52 ≤ q / 2 ^ e := (le_div_iff₀ hpos).mpr hle
    have hlt : ((2 ^ 52 : ℕ) : ℚ) < ((n + 1 : ℕ) : ℚ) := by
      push_cast
      linarith
    exact Nat.le_of_lt_succ (Nat.cast_lt.mp hlt)
  have hrepresentable : Representable (n * 2 ^ e) :=
    ⟨n, e, by rw [Nat.abs_cast]; exact_mod_cast hn, he, rfl⟩
  refine ⟨hn, hfull, of_onGrid hrepresentable ⟨n, rfl⟩ ?_ (hfine.imp_right (le_abs.mpr ∘ .inl))⟩
  calc |n * 2 ^ e - q| = |n - q / 2 ^ e| * 2 ^ e := by
        rw [← abs_of_pos hpos, ← abs_mul, abs_of_pos hpos, sub_mul, div_mul_cancel₀ _ hpos.ne']
    _ ≤ 1 / 2 * 2 ^ e := mul_le_mul_of_nonneg_right herr hpos.le
    _ = 2 ^ e / 2 := by ring

theorem neg (h : Closest v q) : Closest (-v) (-q) := by
  refine ⟨h.representable.neg, fun r hr => ?_⟩
  calc |-v - -q| = |v - q| := by rw [neg_sub_neg, abs_sub_comm]
    _ ≤ |-r - q| := h.abs_sub_le _ hr.neg
    _ = |r - -q| := by rw [← abs_neg, neg_sub, sub_neg_eq_add, sub_neg_eq_add, add_comm]

theorem of_representable (h : Representable q) : Closest q q := by
  refine ⟨h, fun r _ => ?_⟩
  rw [sub_self, abs_zero]
  exact abs_nonneg _

theorem eq_of_representable (h : Closest v q) (hq : Representable q) : v = q := by
  have hle := h.abs_sub_le q hq
  rw [sub_self, abs_zero, abs_nonpos_iff] at hle
  exact sub_eq_zero.mp hle

/-- Rounding does not go past a representable number above. With `ge_of_ge`, its mirror image, this
keeps what is rounded inside every range with representable ends. -/
theorem le_of_le (h : Closest v q) (hr : Representable r) (hqr : q ≤ r) : v ≤ r := by
  have hle := h.abs_sub_le r hr
  rw [abs_of_nonneg (sub_nonneg.mpr hqr)] at hle
  linarith [le_abs_self (v - q)]

theorem ge_of_ge (h : Closest v q) (hr : Representable r) (hrq : r ≤ q) : r ≤ v := by
  have hle := h.abs_sub_le r hr
  rw [abs_of_nonpos (sub_nonpos.mpr hrq)] at hle
  linarith [neg_abs_le (v - q)]

/-- Rounding keeps to a bound on the size that is representable. -/
theorem abs_le_of_abs_le (h : Closest v q) (hr : Representable r) (hq : |q| ≤ r) : |v| ≤ r := by
  obtain ⟨hlow, hhigh⟩ := abs_le.mp hq
  exact abs_le.mpr ⟨h.ge_of_ge hr.neg hlow, h.le_of_le hr hhigh⟩

theorem le_abs_of_le_abs (h : Closest v q) (hr : Representable r) (hq : r ≤ |q|) : r ≤ |v| := by
  rcases le_abs.mp hq with hpos | hneg
  · exact le_abs.mpr (.inl (h.ge_of_ge hr hpos))
  · exact le_abs.mpr (.inr (le_neg_of_le_neg (h.le_of_le hr.neg (le_neg_of_le_neg hneg))))

/-- Rounding a number of limited size goes half a step of the matching grid at most. Up to `2 ^ 53 *
2 ^ e` the whole grid of `2 ^ e` is representable, and what is closest is no farther away than the
closest point of the grid. -/
theorem abs_sub_le_half (h : Closest v q) (he : -1074 ≤ e) (hq : |q| ≤ 2 ^ 53 * 2 ^ e) :
    |v - q| ≤ 2 ^ e / 2 := by
  have hpos : (0 : ℚ) < 2 ^ e := zpow_pos two_pos e
  have hscaled : |q / 2 ^ e| ≤ 2 ^ 53 := by
    rwa [abs_div, abs_of_pos hpos, div_le_iff₀ hpos]
  have hhalf : |q / 2 ^ e - round (q / 2 ^ e)| ≤ 1 / 2 := abs_sub_round _
  have hround : |round (q / 2 ^ e)| ≤ 2 ^ 53 := by
    rw [abs_le] at hscaled hhalf
    have hlow : ((-2 ^ 53 - 1 : ℤ) : ℚ) < round (q / 2 ^ e) := by
      push_cast
      linarith
    have hhigh : (round (q / 2 ^ e) : ℚ) < ((2 ^ 53 + 1 : ℤ) : ℚ) := by
      push_cast
      linarith
    rw [Int.cast_lt] at hlow hhigh
    exact abs_le.mpr ⟨by omega, by omega⟩
  refine (h.abs_sub_le (round (q / 2 ^ e) * 2 ^ e) ⟨_, e, hround, he, rfl⟩).trans ?_
  calc |round (q / 2 ^ e) * 2 ^ e - q|
      = |q / 2 ^ e - round (q / 2 ^ e)| * 2 ^ e := by
        rw [abs_sub_comm, ← abs_of_pos hpos, ← abs_mul, abs_of_pos hpos, sub_mul,
          div_mul_cancel₀ _ hpos.ne']
    _ ≤ 1 / 2 * 2 ^ e := mul_le_mul_of_nonneg_right hhalf hpos.le
    _ = 2 ^ e / 2 := by ring

end Closest

end GraphMapping.Decimal
