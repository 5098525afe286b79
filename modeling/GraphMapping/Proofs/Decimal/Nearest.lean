import GraphMapping.Proofs.Decimal.Rounding

/-!
# The double that is found for a ratio

The library finds the double closest to a ratio itself, with naturals: it takes the exponent of the
first binary digit, rounds the ratio to 53 digits from there, and puts exponent and digits together,
so that a carry moves into the exponent. What it finds is a closest double, as it is for arithmetic.

## Main results

* `roundDivEven_spec`, `leadingExponent_spec`, `ofBits_spec`: the three steps.
* `rounds_nearest`, `rounds_ofInt`: the double found for a ratio and for an integer.
* `toRat?_ofInt`: integers that are not too large are found exactly.
-/

namespace GraphMapping.Decimal

open Float.Model.UnpackedFloat (accuracyOfFraction)
open Float.Model.UnpackedFloat.ExtendedMantissa (ofMantissaAndAccuracy)

/-- Rounding a quotient follows its two bits. -/
theorem roundDivEven_eq (num : ℕ) {den : ℕ} (hden : 0 < den) : roundDivEven num den =
    (ofMantissaAndAccuracy (num / den) (accuracyOfFraction (num % den) den)).roundedMantissa := by
  rw [roundDivEven, accuracyOfFraction]
  by_cases hzero : num % den = 0
  · rw [if_pos hzero, hzero, if_pos hden]
    rfl
  · rw [if_neg hzero]
    cases hcompare : compare (2 * (num % den)) den with
    | lt =>
      rw [if_pos (Nat.compare_eq_lt.mp hcompare)]
      rfl
    | eq =>
      have heq : 2 * (num % den) = den := Nat.compare_eq_eq.mp hcompare
      rw [if_neg (by omega), if_neg (by omega)]
      change _ = num / den + num / den % 2
      split <;> omega
    | gt =>
      have hgt : den < 2 * (num % den) := Nat.compare_eq_gt.mp hcompare
      rw [if_neg (by omega), if_pos hgt]
      rfl

theorem roundDivEven_spec (num : ℕ) {den : ℕ} (hden : 0 < den) :
    |(roundDivEven num den : ℚ) - num / den| ≤ 1 / 2 := by
  rw [roundDivEven_eq num hden]
  exact (describes_div num hden).abs_sub_le_half

/-- The exponent of the first binary digit of a ratio. The lengths of the two integers leave it open
between two values, and one comparison decides. -/
theorem leadingExponent_spec {num den : ℕ} (hnum : 0 < num) (hden : 0 < den) :
    (2 : ℚ) ^ leadingExponent num den ≤ num / den ∧
      (num / den : ℚ) < 2 ^ (leadingExponent num den + 1) := by
  have hpos : (0 : ℚ) < den := Nat.cast_pos.mpr hden
  have hnumLow : ((2 ^ num.log2 : ℕ) : ℚ) ≤ num := Nat.cast_le.mpr (Nat.log2_self_le hnum.ne')
  have hnumHigh : (num : ℚ) < (2 ^ (num.log2 + 1) : ℕ) := Nat.cast_lt.mpr Nat.lt_log2_self
  have hdenLow : ((2 ^ den.log2 : ℕ) : ℚ) ≤ den := Nat.cast_le.mpr (Nat.log2_self_le hden.ne')
  have hdenHigh : (den : ℚ) < (2 ^ (den.log2 + 1) : ℕ) := Nat.cast_lt.mpr Nat.lt_log2_self
  push_cast at hnumLow hnumHigh hdenLow hdenHigh
  have hlow : (2 : ℚ) ^ ((num.log2 : ℤ) - den.log2 - 1) ≤ num / den := by
    rw [sub_sub, zpow_sub₀ two_ne_zero, ← Nat.cast_add_one, zpow_natCast, zpow_natCast]
    exact div_le_div₀ num.cast_nonneg hnumLow hpos hdenHigh.le
  have hhigh : (num / den : ℚ) < 2 ^ ((num.log2 : ℤ) - den.log2 + 1) := by
    rw [sub_add_eq_add_sub, zpow_sub₀ two_ne_zero, ← Nat.cast_add_one, zpow_natCast, zpow_natCast]
    exact div_lt_div₀ hnumHigh hdenLow (by positivity) (by positivity)
  have hcompare : den * 2 ^ ((num.log2 : ℤ) - den.log2).toNat ≤
      num * 2 ^ (-((num.log2 : ℤ) - den.log2)).toNat ↔
        (2 : ℚ) ^ ((num.log2 : ℤ) - den.log2) ≤ num / den := by
    rw [zpow_eq_div, div_le_div_iff₀ (by positivity) hpos, mul_comm den]
    exact_mod_cast Iff.rfl
  rw [leadingExponent]
  change _ ≤ _ ∧ _
  split
  case isTrue h => exact ⟨hcompare.mp h, hhigh⟩
  case isFalse h =>
    rw [Int.sub_add_cancel]
    exact ⟨hlow, lt_of_not_ge fun hle => h (hcompare.mpr hle)⟩

/-- The number of a word made of an exponent and a mantissa, which may carry into the exponent. -/
theorem ofBits_spec (negative : Bool) {k n : ℕ} (hk : k ≤ 2044) (hn : n ≤ 2 ^ 53)
    (hfull : k = 0 ∨ 2 ^ 52 ≤ n) :
    (Binary.ofBits (UInt64.ofNat (k * 2 ^ 52 + n + if negative then 2 ^ 63 else 0))).toRat? =
      some (withSign negative n * 2 ^ ((k : ℤ) - 1074) : ℚ) := by
  have hword : (UInt64.ofNat (k * 2 ^ 52 + n + if negative then 2 ^ 63 else 0)).toNat =
      k * 2 ^ 52 + n + if negative then 2 ^ 63 else 0 := by
    rw [UInt64.toNat_ofNat']
    split <;> omega
  have hsign : (((k * 2 ^ 52 + n + if negative then 2 ^ 63 else 0) / 2 ^ 63 % 2 == 1) : Bool) =
      negative := by
    cases negative <;> simp <;> omega
  have hfield : (k * 2 ^ 52 + n + if negative then 2 ^ 63 else 0) / 2 ^ 52 % 2 ^ 11 =
      k + n / 2 ^ 52 := by
    split <;> omega
  have hmantissa : (k * 2 ^ 52 + n + if negative then 2 ^ 63 else 0) % 2 ^ 52 = n % 2 ^ 52 := by
    split <;> omega
  rw [Binary.ofBits, Nat.pow_eq, Nat.pow_eq, Nat.pow_eq, hword, hsign, hfield, hmantissa,
    if_neg (by omega)]
  rcases Nat.lt_or_ge n (2 ^ 52) with hlt | hge
  · -- below the smallest full mantissa
    obtain rfl : k = 0 := hfull.resolve_right (by omega)
    rw [if_pos (by omega), Nat.mod_eq_of_lt hlt, Binary.toRat?]
    rfl
  · rw [if_neg (by omega), Binary.toRat?]
    rcases hn.lt_or_eq with hlt | rfl
    · have hexponent : ((k + n / 2 ^ 52 : ℕ) : ℤ) - 1075 = k - 1074 := by omega
      have hdigits : 2 ^ 52 + n % 2 ^ 52 = n := by omega
      rw [hexponent, hdigits]
    · -- a carry
      have hexponent : ((k + 2 ^ 53 / 2 ^ 52 : ℕ) : ℤ) - 1075 = k - 1074 + 1 := by omega
      have hdigits : withSign negative (2 ^ 53) =
          withSign negative (2 ^ 52 + 2 ^ 53 % 2 ^ 52) * 2 := by
        cases negative <;> rfl
      rw [hexponent, hdigits, zpow_add_one₀ two_ne_zero]
      congr 1
      push_cast
      ring

@[simp] theorem withSign_zero (negative : Bool) : withSign negative 0 = 0 := by
  cases negative <;> rfl

theorem Closest.withSign {n num den : ℕ} {e : ℤ} (h : Closest (n * 2 ^ e) (num / den))
    (negative : Bool) :
    Closest (withSign negative n * 2 ^ e) (withSign negative num / den) := by
  cases negative with
  | false => exact h
  | true => simpa [Decimal.withSign, neg_div] using h.neg

/-- A ratio is rounded in units of a power of two. -/
theorem roundDivEven_scaled (num : ℕ) {den : ℕ} (hden : 0 < den) (e : ℤ) :
    |(roundDivEven (num * 2 ^ (-e).toNat) (den * 2 ^ e.toNat) : ℚ) - num / den / 2 ^ e| ≤
      1 / 2 := by
  have hscale : ((num * 2 ^ (-e).toNat : ℕ) : ℚ) / ((den * 2 ^ e.toNat : ℕ) : ℚ) =
      num / den / 2 ^ e := by
    rw [zpow_eq_div]
    push_cast
    field_simp
  rw [← hscale]
  exact roundDivEven_spec _ (Nat.mul_pos hden (Nat.two_pow_pos _))

/-- The unit is that of the last of 53 digits, or the smallest there is. -/
theorem lastDigit_spec {num den : ℕ} (hnum : 0 < num) (hden : 0 < den) {e : ℤ}
    (he : e = max (leadingExponent num den - 52) (-1074)) :
    (num / den : ℚ) ≤ 2 ^ 53 * 2 ^ e ∧ (e = -1074 ∨ (2 ^ 52 * 2 ^ e : ℚ) ≤ num / den) := by
  obtain ⟨hlow, hhigh⟩ := leadingExponent_spec hnum hden
  rw [← zpow_natCast, ← zpow_natCast, ← zpow_add₀ two_ne_zero, ← zpow_add₀ two_ne_zero]
  refine ⟨hhigh.le.trans (zpow_le_zpow_right₀ one_le_two (by push_cast; omega)), ?_⟩
  by_cases hleading : e = -1074
  · exact .inl hleading
  · refine .inr (le_trans (le_of_eq ?_) hlow)
    congr 1
    push_cast
    omega

theorem rounds_nearest_zero (negative : Bool) (den : ℕ) : Rounds (nearest negative 0 den) 0 := by
  have hk : 0 ≤ 2044 := Nat.zero_le _
  have hbits := ofBits_spec negative hk (Nat.zero_le _) (.inl rfl)
  refine ⟨0, ?_, .of_representable .zero⟩
  rw [toRat?, nearest, ofFloat_ofBits, nearestMagnitude, if_pos rfl]
  simpa using hbits

/-- The double found for a ratio is a closest one. The bound is well below the largest double, so
that a mantissa which carries into the exponent still does not reach infinity. -/
theorem rounds_nearest (negative : Bool) (num : ℕ) {den : ℕ} (hden : 0 < den)
    (hbound : (num / den : ℚ) < 2 ^ 1023) :
    Rounds (nearest negative num den) (withSign negative num / den) := by
  rcases num.eq_zero_or_pos with rfl | hnum
  · rw [withSign_zero, Int.cast_zero, zero_div]
    exact rounds_nearest_zero negative den
  · obtain ⟨e, he⟩ : ∃ e, e = max (leadingExponent num den - 52) (-1074) := ⟨_, rfl⟩
    have hmin : -1074 ≤ e := by omega
    obtain ⟨hsize, hfine⟩ := lastDigit_spec hnum hden he
    have hmax : e ≤ 970 := le_of_digits hfine hbound
    obtain ⟨hn, hfull, hclosest⟩ :=
      Closest.of_natCast hmin (roundDivEven_scaled num hden e) hsize hfine
    refine ⟨_, ?_, hclosest.withSign negative⟩
    have hmagnitude : nearestMagnitude num den = (e + 1074).toNat * 2 ^ 52 +
        roundDivEven (num * 2 ^ (-e).toNat) (den * 2 ^ e.toNat) := by
      rw [nearestMagnitude, if_neg hnum.ne', ← he]
      exact min_eq_left (by rw [Nat.pow_eq, Nat.pow_eq, Nat.pow_eq]; omega)
    have hk : (e + 1074).toNat ≤ 2044 := by omega
    rw [toRat?, nearest, ofFloat_ofBits, hmagnitude, Nat.pow_eq,
      ofBits_spec negative hk hn (by omega)]
    congr 3
    omega

theorem rounds_ofInt {i : ℤ} (hbound : |(i : ℚ)| < 2 ^ 1023) : Rounds (ofInt i) i := by
  have hsign : withSign (decide (i < 0)) i.natAbs = i := by
    rcases lt_or_ge i 0 with hneg | hnonneg
    · rw [decide_eq_true hneg, withSign, if_pos rfl]
      omega
    · rw [decide_eq_false hnonneg.not_gt, withSign, if_neg Bool.false_ne_true]
      omega
  have hsize : ((i.natAbs : ℕ) / (1 : ℕ) : ℚ) < 2 ^ 1023 := by
    rwa [Nat.cast_one, div_one, Nat.cast_natAbs, Int.cast_abs]
  have hrounds := rounds_nearest (decide (i < 0)) i.natAbs one_pos hsize
  rwa [hsign, Nat.cast_one, div_one] at hrounds

/-- A number of limited size is below the bound for arithmetic. -/
theorem lt_bound {q : ℚ} (h : |q| ≤ 2 ^ 64) : |q| < 2 ^ 1023 :=
  h.trans_lt (pow_lt_pow_right₀ one_lt_two (by norm_num))

theorem toRat?_ofInt {i : ℤ} (h : |i| ≤ 2 ^ 53) : toRat? (ofInt i) = some (i : ℚ) := by
  have hsize : |(i : ℚ)| ≤ 2 ^ 53 := by exact_mod_cast h
  obtain ⟨v, hv, hclosest⟩ := rounds_ofInt (lt_bound (hsize.trans (by norm_num)))
  rwa [hclosest.eq_of_representable (.intCast h)] at hv

end GraphMapping.Decimal
