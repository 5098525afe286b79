import GraphMapping.Proofs.Decimal.Words

/-!
# Arithmetic rounds to a closest double

Each operation on doubles computes an exact result, of which it keeps 53 digits and two bits that
tell where the rest lies. What it gives is a double that is closest to the exact result, as long as
this is not too large. So a proof about arithmetic needs to know of a result only that it is closest
to the exact one.

The two bits follow the exact result through every shift (`Describes`). One lemma on rounding with
these bits settles all operations.

## Main definitions

* `Rounds`: a double is closest to a number.
* `Describes`: a mantissa and its two bits tell where a number lies.
* `Settles`: an unpacked double is in canonical form and closest to a number.

## Main results

* `settles_roundWithAccuracy`: rounding a mantissa with its two bits.
* `rounds_add`, `rounds_sub`, `rounds_mul`, `rounds_div`: the operations.
-/

namespace GraphMapping.Decimal

open Float.Model (Format UnpackedFloat)
open Float.Model.UnpackedFloat (Sign Accuracy ExtendedMantissa roundWithAccuracy
  shiftToTargetExponent decreaseExponent accuracyOfFraction)
open Float.Model.UnpackedFloat.ExtendedMantissa (ofMantissaAndAccuracy)

/-- The double is one that is closest to the number. -/
def Rounds (x : Float) (q : ℚ) : Prop := ∃ v, toRat? x = some v ∧ Closest v q

/-! ### The two bits -/

/-- The mantissa is the whole part of a number, and the two bits tell where the number lies between
this and the next whole number: the first that it has reached the middle, the second that there is
something left. -/
inductive Describes : ExtendedMantissa → ℚ → Prop
  | whole {m : ℕ} {y : ℚ} (h : y = m) : Describes ⟨m, false, false⟩ y
  | below {m : ℕ} {y : ℚ} (hlow : m < y) (hhigh : y < m + 1 / 2) : Describes ⟨m, false, true⟩ y
  | middle {m : ℕ} {y : ℚ} (h : y = m + 1 / 2) : Describes ⟨m, true, false⟩ y
  | above {m : ℕ} {y : ℚ} (hlow : m + 1 / 2 < y) (hhigh : y < m + 1) : Describes ⟨m, true, true⟩ y

/-- A quotient is described by how twice its remainder compares with the divisor. Rounding asks no
more of what lies behind the kept digits than whether it is nothing, below a half, a half or above.
-/
theorem describes_div (a : ℕ) {d : ℕ} (hd : 0 < d) :
    Describes (ofMantissaAndAccuracy (a / d) (accuracyOfFraction (a % d) d)) (a / d) := by
  have hpos : (0 : ℚ) < d := Nat.cast_pos.mpr hd
  have hsplit : (a : ℚ) = (a % d : ℕ) + (a / d : ℕ) * d := by
    exact_mod_cast (Nat.mod_add_div' a d).symm
  have hless : ((a % d : ℕ) : ℚ) < d := Nat.cast_lt.mpr (Nat.mod_lt a hd)
  rw [accuracyOfFraction]
  split
  case isTrue hzero =>
    refine .whole ((div_eq_iff hpos.ne').mpr ?_)
    rw [hsplit, hzero, Nat.cast_zero, zero_add]
  case isFalse hsome =>
    have hsome : (0 : ℚ) < (a % d : ℕ) := Nat.cast_pos.mpr (Nat.pos_of_ne_zero hsome)
    cases hcompare : compare (2 * (a % d)) d with
    | lt =>
      have hhalf : ((2 * (a % d) : ℕ) : ℚ) < d := Nat.cast_lt.mpr (Nat.compare_eq_lt.mp hcompare)
      push_cast at hhalf
      refine .below ((lt_div_iff₀ hpos).mpr ?_) ((div_lt_iff₀ hpos).mpr ?_) <;> linarith
    | eq =>
      have hhalf : ((2 * (a % d) : ℕ) : ℚ) = d := Nat.cast_inj.mpr (Nat.compare_eq_eq.mp hcompare)
      push_cast at hhalf
      refine .middle ((div_eq_iff hpos.ne').mpr ?_)
      linarith
    | gt =>
      have hhalf : (d : ℚ) < ((2 * (a % d) : ℕ) : ℚ) :=
        Nat.cast_lt.mpr (Nat.compare_eq_gt.mp hcompare)
      push_cast at hhalf
      refine .above ((lt_div_iff₀ hpos).mpr ?_) ((div_lt_iff₀ hpos).mpr ?_) <;> linarith

namespace Describes

variable {em : ExtendedMantissa} {y : ℚ}

/-- Rounding to the nearest goes a half at most. -/
theorem abs_sub_le_half (h : Describes em y) : |(em.roundedMantissa : ℚ) - y| ≤ 1 / 2 := by
  cases h with
  | @whole m _ h =>
    change |(m : ℚ) - y| ≤ 1 / 2
    exact abs_le.mpr ⟨by linarith, by linarith⟩
  | @below m _ hlow hhigh =>
    change |(m : ℚ) - y| ≤ 1 / 2
    exact abs_le.mpr ⟨by linarith, by linarith⟩
  | @middle m _ h =>
    change |((m + m % 2 : ℕ) : ℚ) - y| ≤ 1 / 2
    have hlow : (0 : ℚ) ≤ (m % 2 : ℕ) := Nat.cast_nonneg _
    have hhigh : ((m % 2 : ℕ) : ℚ) ≤ 1 := by exact_mod_cast Nat.le_of_lt_succ (Nat.mod_lt m two_pos)
    rw [Nat.cast_add]
    exact abs_le.mpr ⟨by linarith, by linarith⟩
  | @above m _ hlow hhigh =>
    change |((m + 1 : ℕ) : ℚ) - y| ≤ 1 / 2
    rw [Nat.cast_add_one]
    exact abs_le.mpr ⟨by linarith, by linarith⟩

/-- Dropping a digit halves the number: the digit becomes the first bit, and the second bit tells
whether there was anything behind it. -/
theorem shiftRightOne (h : Describes em y) : Describes em.shiftRightOne (y / 2) := by
  have hsplit : (em.mantissa : ℚ) = (em.mantissa % 2 : ℕ) + 2 * (em.mantissa / 2 : ℕ) := by
    exact_mod_cast (Nat.mod_add_div em.mantissa 2).symm
  rw [ExtendedMantissa.shiftRightOne]
  rcases Nat.mod_two_eq_zero_or_one em.mantissa with hbit | hbit
  · rw [hbit, Nat.cast_zero, zero_add] at hsplit
    rw [hbit]
    cases h with
    | whole h => exact .whole (by linarith)
    | below hlow hhigh => exact .below (by linarith) (by linarith)
    | middle h => exact .below (by linarith) (by linarith)
    | above hlow hhigh => exact .below (by linarith) (by linarith)
  · rw [hbit, Nat.cast_one] at hsplit
    rw [hbit]
    cases h with
    | whole h => exact .middle (by linarith)
    | below hlow hhigh => exact .above (by linarith) (by linarith)
    | middle h => exact .above (by linarith) (by linarith)
    | above hlow hhigh => exact .above (by linarith) (by linarith)

theorem shiftRight (h : Describes em y) (n : ℕ) : Describes (em >>> n) (y / 2 ^ n) := by
  induction n with
  | zero =>
    rw [pow_zero, div_one]
    exact h
  | succ n ih =>
    rw [pow_succ, ← div_div]
    exact ih.shiftRightOne

theorem mantissa_le {m : ℕ} {acc : Accuracy} (h : Describes (ofMantissaAndAccuracy m acc) y) :
    (m : ℚ) ≤ y ∧ y < m + 1 := by
  cases acc with
  | exact =>
    cases h with
    | whole h => exact ⟨by linarith, by linarith⟩
  | inexact order =>
    cases order with
    | lt =>
      cases h with
      | below hlow hhigh => exact ⟨by linarith, by linarith⟩
    | eq =>
      cases h with
      | middle h => exact ⟨by linarith, by linarith⟩
    | gt =>
      cases h with
      | above hlow hhigh => exact ⟨by linarith, by linarith⟩

end Describes

/-! ### Rounding an unpacked result -/

/-- The sign as a factor. -/
def factor : Sign → ℤ
  | .negative => -1
  | .positive => 1

@[simp] theorem factor_mul (s t : Sign) : factor (s * t) = factor s * factor t := by
  cases s <;> cases t <;> rfl

@[simp] theorem factor_div (s t : Sign) : factor (s / t) = factor s * factor t := by
  cases s <;> cases t <;> rfl

@[simp] theorem factor_neg (s : Sign) : factor (-s) = -factor s := by
  cases s <;> rfl

theorem apply_eq (s : Sign) (i : ℤ) : s.apply i = factor s * i := by
  cases s <;> simp [Sign.apply, factor]

theorem withSign_isNegative (s : Sign) (m : ℕ) : withSign (isNegative s) m = factor s * m := by
  cases s <;> simp [withSign, isNegative, factor]

theorem lt_of_abs_factor_mul {s : Sign} {q r : ℚ} (h : |factor s * q| < r) : q < r := by
  have habs : |(factor s : ℚ)| = 1 := by cases s <;> simp [factor]
  rw [abs_mul, habs, one_mul] at h
  exact (le_abs_self q).trans_lt h

/-- The unpacked double stands for the number. -/
inductive Stands : UnpackedFloat → ℚ → Prop
  | zero (s : Sign) : Stands (.zero s) 0
  | finite (s : Sign) {m : ℕ} (e : ℤ) (h : 0 < m) :
    Stands (.finite s m e h) (factor s * (m * 2 ^ e))

variable {u w : UnpackedFloat} {a b : ℚ}

theorem stands_iff : Stands u a ↔ (ofUnpacked u).toRat? = some a := by
  constructor
  · rintro (s | ⟨s, e, h⟩)
    · simp [ofUnpacked, Binary.toRat?, withSign_isNegative]
    · simp [ofUnpacked, Binary.toRat?, withSign_isNegative, mul_assoc]
  · intro h
    cases u with
    | notANumber => cases h
    | infinity s => cases h
    | zero s =>
      simp [ofUnpacked, Binary.toRat?, withSign_isNegative] at h
      exact h ▸ .zero s
    | finite s m e hpos =>
      simp [ofUnpacked, Binary.toRat?, withSign_isNegative, mul_assoc] at h
      exact h ▸ .finite s e hpos

/-- The unpacked double is in canonical form, and it stands for a number closest to `q`. -/
structure Settles (u : UnpackedFloat) (q : ℚ) : Prop where
  canonical : Canonical u
  closest : ∃ v, Stands u v ∧ Closest v q

theorem Closest.factor_mul {v q : ℚ} (h : Closest v q) (s : Sign) :
    Closest (factor s * v) (factor s * q) := by
  cases s with
  | negative => simpa [factor] using h.neg
  | positive => simpa [factor] using h

/-- What is closest already stays. -/
theorem Settles.of_stands (h : Stands u a) (hu : Canonical u) (ha : Representable a) :
    Settles u a :=
  ⟨hu, a, h, .of_representable ha⟩

/-- The exponent of the last of 53 digits. -/
def lastExponent (m : ℕ) (e : ℤ) : ℤ := max (m.log2 + 1 + e - 53) (-1074)

theorem shiftToTargetExponent_eq (m : ℕ) (e : ℤ) (acc : Accuracy) :
    shiftToTargetExponent Format.binary64 m e acc =
      (ofMantissaAndAccuracy m acc >>> (lastExponent m e - e).toNat,
        e + (lastExponent m e - e).toNat) := rfl

/-- The number of digits that lie before the last exponent. -/
theorem lastExponent_spec {m : ℕ} {e : ℤ} {y : ℚ} (hm : m ≤ y) (hy : y < m + 1)
    (he : e ≤ lastExponent m e) :
    y * 2 ^ e ≤ 2 ^ 53 * 2 ^ lastExponent m e ∧
      (lastExponent m e = -1074 ∨ 2 ^ 52 * 2 ^ lastExponent m e ≤ y * 2 ^ e) := by
  have hpos : (0 : ℚ) < 2 ^ e := zpow_pos two_pos e
  have hscale : ∀ k : ℕ, (2 : ℚ) ^ k * 2 ^ e = 2 ^ (k + e) := fun k => by
    rw [zpow_add₀ two_ne_zero, zpow_natCast]
  constructor
  · have hdigits : ((m + 1 : ℕ) : ℚ) ≤ ((2 ^ (m.log2 + 1) : ℕ) : ℚ) :=
      Nat.cast_le.mpr Nat.lt_log2_self
    push_cast at hdigits
    calc y * 2 ^ e ≤ 2 ^ (m.log2 + 1) * 2 ^ e :=
          mul_le_mul_of_nonneg_right (hy.le.trans hdigits) hpos.le
      _ = 2 ^ ((m.log2 + 1 : ℕ) + e) := hscale _
      _ ≤ 2 ^ ((53 : ℕ) + lastExponent m e) :=
        zpow_le_zpow_right₀ one_le_two (by rw [lastExponent]; push_cast; omega)
      _ = 2 ^ 53 * 2 ^ lastExponent m e := by rw [zpow_add₀ two_ne_zero, zpow_natCast]
  · by_cases hfinest : lastExponent m e = -1074
    · exact .inl hfinest
    · have hlast : lastExponent m e = m.log2 + 1 + e - 53 := by
        rw [lastExponent] at hfinest ⊢
        omega
      have hne : m ≠ 0 := by
        rintro rfl
        rw [Nat.log2_zero] at hlast
        omega
      have hdigits : ((2 ^ m.log2 : ℕ) : ℚ) ≤ m := Nat.cast_le.mpr (Nat.log2_self_le hne)
      push_cast at hdigits
      refine .inr ?_
      calc (2 : ℚ) ^ 52 * 2 ^ lastExponent m e = 2 ^ ((52 : ℕ) + lastExponent m e) := by
            rw [zpow_add₀ two_ne_zero, zpow_natCast]
        _ = 2 ^ (m.log2 + e) := by
          congr 1
          push_cast
          omega
        _ = 2 ^ m.log2 * 2 ^ e := (hscale _).symm
        _ ≤ y * 2 ^ e := mul_le_mul_of_nonneg_right (hdigits.trans hm) hpos.le

/-- A number below the bound does not need the largest exponents. -/
theorem le_of_digits {e : ℤ} {q : ℚ} (h : e = -1074 ∨ 2 ^ 52 * 2 ^ e ≤ q) (hbound : q < 2 ^ 1023) :
    e ≤ 970 := by
  rcases h with rfl | hle
  · norm_num
  · have hlt : (2 : ℚ) ^ (52 + e) < 2 ^ (1023 : ℤ) := by
      rw [zpow_add₀ two_ne_zero]
      exact_mod_cast hle.trans_lt hbound
    have := (zpow_lt_zpow_iff_right₀ one_lt_two).mp hlt
    omega

/-- The digits as an unpacked double, after a carry out of them has moved into the exponent. -/
def carried (s : Sign) (n : ℕ) (e : ℤ) : UnpackedFloat :=
  let (em, e) := shiftToTargetExponent Format.binary64 n e .exact
  if h : em.mantissa = 0 then .zero s else .finite s em.mantissa e (Nat.pos_of_ne_zero h)

theorem carried_of_lt (s : Sign) {n : ℕ} {e : ℤ} (hn : n < 2 ^ 53) (he : -1074 ≤ e) :
    carried s n e = if h : n = 0 then .zero s else .finite s n e (Nat.pos_of_ne_zero h) := by
  have hlast : lastExponent n e ≤ e := by
    rw [lastExponent]
    rcases n.eq_zero_or_pos with rfl | hpos
    · rw [Nat.log2_zero]
      omega
    · have hlog : n.log2 < 53 := (Nat.log2_lt hpos.ne').mpr hn
      omega
  have hshift : (lastExponent n e - e).toNat = 0 := by omega
  have hcarried : carried s n e =
      if h : n = 0 then .zero s else .finite s n (e + (0 : ℕ)) (Nat.pos_of_ne_zero h) := by
    rw [carried, shiftToTargetExponent_eq, hshift]
    rfl
  rw [hcarried]
  simp only [Nat.cast_zero, add_zero]

/-- A carry leaves a power of two, so that nothing is lost when the mantissa is made shorter by a
digit and the exponent larger by one. -/
theorem carried_of_eq (s : Sign) {e : ℤ} (he : -1074 ≤ e) :
    carried s (2 ^ 53) e = .finite s (2 ^ 52) (e + 1) (by norm_num) := by
  have hlog : (2 ^ 53).log2 = 53 := Nat.log2_two_pow
  have hlast : lastExponent (2 ^ 53) e = e + 1 := by
    rw [lastExponent, hlog]
    omega
  have hshift : (lastExponent (2 ^ 53) e - e).toNat = 1 := by omega
  rw [carried, shiftToTargetExponent_eq, hshift]
  rfl

/-- Rounding makes a carry of one digit at most. What comes out is in canonical form and stands for
the rounded number, also when the carry has filled a mantissa that had leading zeros. -/
theorem carried_spec (s : Sign) {n : ℕ} {e : ℤ} (hn : n ≤ 2 ^ 53) (hfull : e = -1074 ∨ 2 ^ 52 ≤ n)
    (hlow : -1074 ≤ e) (hhigh : e ≤ 970) :
    Canonical (carried s n e) ∧ Stands (carried s n e) (factor s * (n * 2 ^ e)) := by
  rcases hn.lt_or_eq with hlt | rfl
  · rw [carried_of_lt s hlt hlow]
    split
    case isTrue hzero =>
      subst hzero
      refine ⟨trivial, ?_⟩
      rw [Nat.cast_zero, zero_mul, mul_zero]
      exact .zero s
    case isFalse hpos => exact ⟨⟨hlt, hfull.symm, hlow, by omega⟩, .finite s e _⟩
  · have hvalue : (((2 ^ 53 : ℕ) : ℚ) * 2 ^ e) = ((2 ^ 52 : ℕ) : ℚ) * 2 ^ (e + 1) := by
      rw [zpow_add_one₀ two_ne_zero]
      push_cast
      ring
    rw [carried_of_eq s hlow, hvalue]
    exact ⟨⟨by norm_num, .inl le_rfl, by omega, by omega⟩, .finite s (e + 1) _⟩

/-- A number is rounded to its first 53 digits, and a carry out of these moves into the exponent. -/
theorem settles_roundWithAccuracy (s : Sign) {m : ℕ} {e : ℤ} {acc : Accuracy} {y : ℚ}
    (h : Describes (ofMantissaAndAccuracy m acc) y) (he : e ≤ lastExponent m e)
    (hbound : y * 2 ^ e < 2 ^ 1023) :
    Settles (roundWithAccuracy Format.binary64 s m e acc) (factor s * (y * 2 ^ e)) := by
  obtain ⟨hm, hy⟩ := h.mantissa_le
  obtain ⟨hsize, hfine⟩ := lastExponent_spec hm hy he
  have hlow : -1074 ≤ lastExponent m e := le_max_right _ _
  have hround : roundWithAccuracy Format.binary64 s m e acc =
      carried s (ofMantissaAndAccuracy m acc >>> (lastExponent m e - e).toNat).roundedMantissa
        (e + (lastExponent m e - e).toNat) := rfl
  have hexponent : e + (lastExponent m e - e).toNat = lastExponent m e := by omega
  have herr := (h.shiftRight (lastExponent m e - e).toNat).abs_sub_le_half
  rw [hround, hexponent]
  generalize (ofMantissaAndAccuracy m acc >>> (lastExponent m e - e).toNat).roundedMantissa = n
    at herr ⊢
  have hscale : y / 2 ^ (lastExponent m e - e).toNat = y * 2 ^ e / 2 ^ lastExponent m e := by
    rw [← zpow_natCast, Int.toNat_of_nonneg (by omega), zpow_sub₀ two_ne_zero]
    field_simp
  rw [hscale] at herr
  obtain ⟨hn, hfull, hclosest⟩ := Closest.of_natCast hlow herr hsize hfine
  have hhigh : lastExponent m e ≤ 970 := le_of_digits hfine hbound
  obtain ⟨hcanonical, hstands⟩ := carried_spec s hn hfull hlow hhigh
  exact ⟨hcanonical, _, hstands, hclosest.factor_mul s⟩

/-! ### The operations, unpacked -/

/-- Digits that are moved stand for the same number with another exponent. -/
theorem shiftLeft_mul_zpow (m k : ℕ) {e t : ℤ} (h : t + k = e) :
    ((m <<< k : ℕ) : ℚ) * 2 ^ t = m * 2 ^ e := by
  rw [Nat.shiftLeft_eq, Nat.cast_mul, Nat.cast_pow, Nat.cast_ofNat, mul_assoc, ← zpow_natCast,
    ← zpow_add₀ two_ne_zero, Int.add_comm, h]

theorem decreaseExponent_mul_zpow (m : ℕ) {e t : ℤ} (h : t ≤ e) :
    ((decreaseExponent m e t).1 * 2 ^ t : ℚ) = m * 2 ^ e :=
  shiftLeft_mul_zpow m (e - t).toNat (by omega)

theorem describes_exact (m : ℕ) : Describes (ofMantissaAndAccuracy m .exact) m := .whole rfl

theorem lastExponent_shiftLeft {m : ℕ} (hm : 0 < m) (e : ℤ) (k : ℕ) :
    lastExponent (m <<< k) (e - k) = lastExponent m e := by
  have hlog : (m <<< k).log2 = m.log2 + k := by
    induction k with
    | zero => rfl
    | succ k ih =>
      have hne : m <<< k ≠ 0 := by
        rw [Nat.shiftLeft_eq]
        positivity
      rw [Nat.shiftLeft_succ, Nat.log2_two_mul hne, ih, Nat.add_assoc]
  rw [lastExponent, lastExponent, hlog]
  push_cast
  congr 1
  ring

theorem settles_round (s : Sign) {m : ℕ} (hm : 0 < m) {e : ℤ}
    (hbound : (m * 2 ^ e : ℚ) < 2 ^ 1023) :
    Settles (UnpackedFloat.round Format.binary64 s m e) (factor s * (m * 2 ^ e)) := by
  have hround : UnpackedFloat.round Format.binary64 s m e =
      roundWithAccuracy Format.binary64 s (m <<< (e - lastExponent m e).toNat)
        (e - (e - lastExponent m e).toNat) .exact := rfl
  have hvalue := shiftLeft_mul_zpow m (e - lastExponent m e).toNat
    (Int.sub_add_cancel e (e - lastExponent m e).toNat)
  rw [hround, ← hvalue]
  refine settles_roundWithAccuracy s (describes_exact _) ?_ (hvalue ▸ hbound)
  rw [lastExponent_shiftLeft hm]
  omega

theorem settles_normalize (i : ℤ) (e : ℤ) (s : Sign) (hbound : |(i * 2 ^ e : ℚ)| < 2 ^ 1023) :
    Settles (UnpackedFloat.normalize Format.binary64 i e s) (i * 2 ^ e) := by
  rcases lt_trichotomy i 0 with hneg | rfl | hpos
  · have hnat : (((-i).toNat : ℕ) : ℚ) = -i := by
      exact_mod_cast Int.toNat_of_nonneg (Int.neg_nonneg_of_nonpos hneg.le)
    have hvalue : (i * 2 ^ e : ℚ) = factor .negative * ((-i).toNat * 2 ^ e) := by
      simp [hnat, factor]
    have hsize : ((-i).toNat * 2 ^ e : ℚ) ≤ |(i * 2 ^ e : ℚ)| := by
      rw [hnat, neg_mul]
      exact neg_le_abs _
    rw [UnpackedFloat.normalize, Int.compare_eq_lt.mpr hneg, hvalue]
    exact settles_round _ (by omega) (hsize.trans_lt hbound)
  · rw [Int.cast_zero, zero_mul]
    exact .of_stands (.zero s) trivial .zero
  · have hnat : ((i.toNat : ℕ) : ℚ) = i := by exact_mod_cast Int.toNat_of_nonneg hpos.le
    have hvalue : (i * 2 ^ e : ℚ) = factor .positive * (i.toNat * 2 ^ e) := by
      simp [hnat, factor]
    have hsize : (i.toNat * 2 ^ e : ℚ) ≤ |(i * 2 ^ e : ℚ)| := by
      rw [hnat]
      exact le_abs_self _
    rw [UnpackedFloat.normalize, Int.compare_eq_gt.mpr hpos, hvalue]
    exact settles_round _ (by omega) (hsize.trans_lt hbound)

theorem Stands.representable (hu : Stands u a) (hc : Canonical u) : Representable a := by
  cases hu with
  | zero s => exact .zero
  | @finite s m e h =>
    refine ⟨factor s * m, e, ?_, hc.2.2.1, by push_cast; rw [mul_assoc]⟩
    have hm : m < 2 ^ 53 := hc.1
    cases s <;> simp [factor] <;> omega

/-- A sum of numbers in two exponents is first written with the smaller one. -/
theorem Stands.add (hu : Stands u a) (hw : Stands w b) (hcu : Canonical u) (hcw : Canonical w)
    (hbound : |a + b| < 2 ^ 1023) : Settles (UnpackedFloat.add Format.binary64 u w) (a + b) := by
  cases hu with
  | zero s =>
    rw [zero_add]
    cases hw with
    | zero t =>
      cases s <;> cases t <;> exact .of_stands (.zero _) trivial .zero
    | finite t e h => exact .of_stands (.finite t e h) hcw ((Stands.finite t e h).representable hcw)
  | @finite s m e h =>
    cases hw with
    | zero t =>
      rw [add_zero]
      exact .of_stands (.finite s e h) hcu ((Stands.finite s e h).representable hcu)
    | @finite t n e' h' =>
      have hadd : UnpackedFloat.add Format.binary64 (.finite s m e h) (.finite t n e' h') =
          UnpackedFloat.normalize Format.binary64 (s.apply (decreaseExponent m e (min e e')).1 +
            t.apply (decreaseExponent n e' (min e e')).1) (min e e') .positive := rfl
      have hvalue : ((s.apply (decreaseExponent m e (min e e')).1 +
            t.apply (decreaseExponent n e' (min e e')).1 : ℤ) * 2 ^ min e e' : ℚ) =
          factor s * (m * 2 ^ e) + factor t * (n * 2 ^ e') := by
        rw [← decreaseExponent_mul_zpow m (min_le_left e e'),
          ← decreaseExponent_mul_zpow n (min_le_right e e'), apply_eq, apply_eq]
        push_cast
        ring
      rw [hadd, ← hvalue]
      exact settles_normalize _ _ _ (hvalue ▸ hbound)

theorem Stands.neg (hu : Stands u a) : Stands u.neg (-a) := by
  cases hu with
  | zero s =>
    rw [neg_zero]
    exact .zero (-s)
  | @finite s m e h =>
    have hvalue : (-(factor s * (m * 2 ^ e)) : ℚ) = factor (-s) * (m * 2 ^ e) := by simp
    rw [hvalue]
    exact .finite (-s) e h

theorem canonical_neg (hu : Canonical u) : Canonical u.neg := by
  cases u <;> exact hu

theorem sub_unpacked (u w : UnpackedFloat) :
    UnpackedFloat.sub Format.binary64 u w = UnpackedFloat.add Format.binary64 u w.neg := by
  cases u with
  | finite s m e h =>
    cases w with
    | finite t n e' h' =>
      have happly : ∀ i, (-t).apply i = -t.apply i := fun i => by
        rw [apply_eq, apply_eq, factor_neg, neg_mul]
      change UnpackedFloat.normalize Format.binary64 (s.apply _ - t.apply _) _ _ =
        UnpackedFloat.normalize Format.binary64 (s.apply _ + (-t).apply _) _ _
      rw [happly, ← Int.sub_eq_add_neg]
    | _ => rfl
  | _ => cases w <;> rfl

theorem Stands.sub (hu : Stands u a) (hw : Stands w b) (hcu : Canonical u) (hcw : Canonical w)
    (hbound : |a - b| < 2 ^ 1023) : Settles (UnpackedFloat.sub Format.binary64 u w) (a - b) := by
  rw [sub_eq_add_neg] at hbound ⊢
  rw [sub_unpacked]
  exact hu.add hw.neg hcu (canonical_neg hcw) hbound

/-- The digits of two numbers make as many digits as one number needs, unless both numbers are so
small that the smallest exponent is reached. -/
theorem Stands.mul (hu : Stands u a) (hw : Stands w b) (hcu : Canonical u) (hcw : Canonical w)
    (hbound : |a * b| < 2 ^ 1023) : Settles (UnpackedFloat.mul Format.binary64 u w) (a * b) := by
  cases hu with
  | zero s =>
    rw [zero_mul]
    cases hw <;> exact .of_stands (.zero _) trivial .zero
  | @finite s m e h =>
    cases hw with
    | zero t =>
      rw [mul_zero]
      exact .of_stands (.zero _) trivial .zero
    | @finite t n e' h' =>
      have hdigits : e + e' ≤ lastExponent (m * n) (e + e') := by
        obtain ⟨-, hm, -, -⟩ := hcu
        obtain ⟨-, hn, -, -⟩ := hcw
        rw [lastExponent]
        by_cases hlarge : 2 ^ 52 ≤ m * n
        · have hlog : 52 ≤ (m * n).log2 := (Nat.le_log2 (Nat.mul_pos h h').ne').mpr hlarge
          omega
        · have hm : e = -1074 := hm.resolve_left fun hm =>
            hlarge (hm.trans (Nat.le_mul_of_pos_right m h'))
          have hn : e' = -1074 := hn.resolve_left fun hn =>
            hlarge (hn.trans (Nat.le_mul_of_pos_left n h))
          omega
      have hscale : ((m * n : ℕ) * 2 ^ (e + e') : ℚ) = m * 2 ^ e * (n * 2 ^ e') := by
        rw [zpow_add₀ two_ne_zero]
        push_cast
        ring
      have hvalue : (factor s * (m * 2 ^ e) * (factor t * (n * 2 ^ e')) : ℚ) =
          factor (s * t) * ((m * n : ℕ) * 2 ^ (e + e')) := by
        rw [hscale, factor_mul]
        push_cast
        ring
      rw [hvalue] at hbound ⊢
      exact settles_roundWithAccuracy _ (describes_exact _) hdigits (lt_of_abs_factor_mul hbound)

/-- The exponent of a quotient before rounding. -/
def quotientExponent (m : ℕ) (e : ℤ) (n : ℕ) (e' : ℤ) : ℤ :=
  min (e - e') (max ((m.log2 + 1 + e) - (n.log2 + 1 + e') - 53) (-1074))

/-- The quotient has enough digits to be rounded: the dividend is shifted until the integer part of
the quotient fills a mantissa, and the remainder is all that is left to round by. -/
theorem quotientExponent_le {m n : ℕ} (hm : 0 < m) (hn : 0 < n) (e e' : ℤ) :
    quotientExponent m e n e' ≤
      lastExponent ((m <<< (e - e' - quotientExponent m e n e').toNat) / n)
        (quotientExponent m e n e') := by
  by_cases hlow : quotientExponent m e n e' ≤ -1074
  · exact hlow.trans (le_max_right _ _)
  · have hexponent : quotientExponent m e n e' ≤ (m.log2 + 1 + e) - (n.log2 + 1 + e') - 53 := by
      rw [quotientExponent] at hlow ⊢
      omega
    have hshift : n.log2 + 1 + 52 ≤ m.log2 + (e - e' - quotientExponent m e n e').toNat := by omega
    generalize quotientExponent m e n e' = t at *
    generalize (e - e' - t).toNat = k at *
    have hlarge : 2 ^ 52 ≤ m <<< k / n := by
      rw [Nat.le_div_iff_mul_le hn, Nat.shiftLeft_eq]
      calc 2 ^ 52 * n ≤ 2 ^ 52 * 2 ^ (n.log2 + 1) :=
            Nat.mul_le_mul_left _ Nat.lt_log2_self.le
        _ = 2 ^ (n.log2 + 1 + 52) := by rw [← Nat.pow_add, Nat.add_comm]
        _ ≤ 2 ^ (m.log2 + k) := Nat.pow_le_pow_right two_pos hshift
        _ = 2 ^ m.log2 * 2 ^ k := Nat.pow_add _ _ _
        _ ≤ m * 2 ^ k := Nat.mul_le_mul_right _ (Nat.log2_self_le hm.ne')
    have hlog : 52 ≤ (m <<< k / n).log2 := (Nat.le_log2 (by omega)).mpr hlarge
    rw [lastExponent]
    omega

theorem Stands.div (hu : Stands u a) (hw : Stands w b) (hb : b ≠ 0) (hbound : |a / b| < 2 ^ 1023) :
    Settles (UnpackedFloat.div Format.binary64 u w) (a / b) := by
  cases hw with
  | zero t => exact absurd rfl hb
  | @finite t n e' h' =>
    cases hu with
    | zero s =>
      rw [zero_div]
      exact .of_stands (.zero _) trivial .zero
    | @finite s m e h =>
      have hdiv : UnpackedFloat.div Format.binary64 (.finite s m e h) (.finite t n e' h') =
          roundWithAccuracy Format.binary64 (s / t)
            ((m <<< (e - e' - quotientExponent m e n e').toNat) / n) (quotientExponent m e n e')
            (accuracyOfFraction ((m <<< (e - e' - quotientExponent m e n e').toNat) % n) n) := rfl
      have hdescribes := describes_div (m <<< (e - e' - quotientExponent m e n e').toNat) h'
      have hdigits := quotientExponent_le h h' e e'
      have hle : quotientExponent m e n e' ≤ e - e' := min_le_left _ _
      have hscale : (((m <<< (e - e' - quotientExponent m e n e').toNat : ℕ) : ℚ) / n *
          2 ^ quotientExponent m e n e' : ℚ) = m * 2 ^ e / (n * 2 ^ e') := by
        rw [div_mul_eq_mul_div, shiftLeft_mul_zpow m _ (by omega : _ = e - e'),
          zpow_sub₀ two_ne_zero]
        field_simp
      have hvalue : (factor s * (m * 2 ^ e) / (factor t * (n * 2 ^ e')) : ℚ) =
          factor (s / t) * (((m <<< (e - e' - quotientExponent m e n e').toNat : ℕ) : ℚ) / n *
            2 ^ quotientExponent m e n e') := by
        rw [hscale, factor_div]
        cases t <;> simp [factor] <;> ring
      rw [hdiv, hvalue]
      exact settles_roundWithAccuracy _ hdescribes hdigits
        (lt_of_abs_factor_mul (hvalue ▸ hbound))

/-! ### The operations -/

section Operations

variable {x y : Float}

theorem toRat?_iff : toRat? x = some a ↔ Stands x.toModel.unpack a := by
  rw [stands_iff, toRat?, Binary.ofFloat, ofBits_eq_ofUnpacked]
  rfl

/-- A number that is settled is what the packed double rounds to. -/
theorem Settles.rounds (h : Settles u a) : Rounds ⟨Float.Model.pack u⟩ a := by
  obtain ⟨hcanonical, v, hstands, hclosest⟩ := h
  refine ⟨v, ?_, hclosest⟩
  rw [toRat?, ofFloat_pack hcanonical]
  exact stands_iff.mp hstands

theorem rounds_add (hx : toRat? x = some a) (hy : toRat? y = some b) (hbound : |a + b| < 2 ^ 1023) :
    Rounds (x + y) (a + b) :=
  Settles.rounds <| (toRat?_iff.mp hx).add (toRat?_iff.mp hy) (canonical_unpack _)
    (canonical_unpack _) hbound

theorem rounds_sub (hx : toRat? x = some a) (hy : toRat? y = some b) (hbound : |a - b| < 2 ^ 1023) :
    Rounds (x - y) (a - b) :=
  Settles.rounds <| (toRat?_iff.mp hx).sub (toRat?_iff.mp hy) (canonical_unpack _)
    (canonical_unpack _) hbound

theorem rounds_mul (hx : toRat? x = some a) (hy : toRat? y = some b) (hbound : |a * b| < 2 ^ 1023) :
    Rounds (x * y) (a * b) :=
  Settles.rounds <| (toRat?_iff.mp hx).mul (toRat?_iff.mp hy) (canonical_unpack _)
    (canonical_unpack _) hbound

theorem rounds_div (hx : toRat? x = some a) (hy : toRat? y = some b) (hb : b ≠ 0)
    (hbound : |a / b| < 2 ^ 1023) : Rounds (x / y) (a / b) :=
  Settles.rounds <| (toRat?_iff.mp hx).div (toRat?_iff.mp hy) hb hbound

end Operations

end GraphMapping.Decimal
