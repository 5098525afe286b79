import Mathlib
import GraphMapping.Decimal.Binary
import GraphMapping.Proofs.Decimal.Closest

/-!
# Doubles as words

A double is a word of 64 bits. The library reads the exact number from the bits, and arithmetic
unpacks them, computes, and packs the result again. Both read the same from a word, and packing
loses nothing of a result that is in the form in which numbers are unpacked. So every finite double
stands for one number, which is representable, and no number except for zero has two doubles.

## Main definitions

* `toRat?`: the exact number that a double stands for.
* `ofUnpacked`: an unpacked double as an exact number.
* `Canonical`: the form in which numbers are unpacked.

## Main results

* `ofBits_eq_ofUnpacked`: the bits of a word and the unpacked word agree.
* `unpack_pack`: packing a number in canonical form.
* `representable_of_toRat?`, `eq_of_toRat?_eq`: the numbers of doubles, which tell the double.
* `floor?_eq`, `roundHalfUp?_eq`, `truncate?_eq`: integer parts.
-/

namespace GraphMapping.Decimal

open Float.Model (Format UnpackedFloat)
open Float.Model.UnpackedFloat (Sign unpack pack unpackMantissa unpackExponent unpackSign
  packComponents unpackSign_packComponents unpackMantissa_packComponents
  unpackExponent_packComponents)

/-! ### Exact numbers -/

/-- The exact number, if there is one. -/
def Binary.toRat? : Binary → Option ℚ
  | .finite negative m e => some (withSign negative m * 2 ^ e)
  | _ => none

/-- The exact number that a double stands for. -/
def toRat? (x : Float) : Option ℚ := (Binary.ofFloat x).toRat?

theorem exists_of_toRat? {x : Float} {v : ℚ} (h : toRat? x = some v) :
    ∃ negative m e, Binary.ofFloat x = .finite negative m e ∧ v = withSign negative m * 2 ^ e := by
  rw [toRat?] at h
  cases hx : Binary.ofFloat x with
  | nan => simp [hx, Binary.toRat?] at h
  | infinite negative => simp [hx, Binary.toRat?] at h
  | finite negative m e =>
    rw [hx] at h
    exact ⟨negative, m, e, rfl, (Option.some.inj h).symm⟩

/-- A power of two with any exponent as a ratio. -/
theorem zpow_eq_div (e : ℤ) : (2 : ℚ) ^ e = (2 ^ e.toNat : ℕ) / (2 ^ (-e).toNat : ℕ) := by
  push_cast
  rw [← zpow_natCast, ← zpow_natCast, ← zpow_sub₀ two_ne_zero]
  congr 1
  omega

theorem eq_div (negative : Bool) (m : Nat) (e : Int) :
    (withSign negative m * 2 ^ e : ℚ) =
      ((withSign negative (m * Nat.pow 2 e.toNat) : ℤ) : ℚ) / ((2 ^ (-e).toNat : ℕ) : ℚ) := by
  have hsign : withSign negative (m * Nat.pow 2 e.toNat) = withSign negative m * 2 ^ e.toNat := by
    cases negative <;> simp [withSign]
  rw [zpow_eq_div, hsign]
  push_cast
  ring

/-- For a power of two, the quotient towards the floor is the usual one. -/
theorem fdiv_pow (i : ℤ) (k : ℕ) : i.fdiv (Int.pow 2 k) = i / ((2 ^ k : ℕ) : ℤ) := by
  have hpow : Int.pow 2 k = ((2 ^ k : ℕ) : ℤ) := (Nat.cast_pow 2 k).symm
  rw [hpow, Int.fdiv_eq_ediv_of_nonneg _ (Int.natCast_nonneg _)]

section IntegerParts

variable {x : Float} {v : ℚ}

theorem floor?_eq (h : toRat? x = some v) : floor? x = some ⌊v⌋ := by
  obtain ⟨negative, m, e, hx, rfl⟩ := exists_of_toRat? h
  rw [eq_div, Rat.floor_intCast_div_natCast, floor?, hx, ← fdiv_pow]

theorem roundHalfUp?_eq (h : toRat? x = some v) : roundHalfUp? x = some ⌊v + 1 / 2⌋ := by
  obtain ⟨negative, m, e, hx, rfl⟩ := exists_of_toRat? h
  have hhalf : (withSign negative m * 2 ^ e + 1 / 2 : ℚ) =
      ((2 * withSign negative (m * Nat.pow 2 e.toNat) + 2 ^ (-e).toNat : ℤ) : ℚ) /
        ((2 ^ ((-e).toNat + 1) : ℕ) : ℚ) := by
    rw [eq_div, pow_succ]
    push_cast
    field_simp
  rw [hhalf, Rat.floor_intCast_div_natCast, roundHalfUp?, hx, ← fdiv_pow]
  rfl

theorem truncate?_eq {i : ℤ} (h : toRat? x = some (i : ℚ)) : truncate? x = some i := by
  obtain ⟨negative, m, e, hx, hi⟩ := exists_of_toRat? h
  rw [eq_div, eq_div_iff (by positivity)] at hi
  have hpos : 0 < 2 ^ (-e).toNat := Nat.two_pow_pos _
  have hi : i * ((2 ^ (-e).toNat : ℕ) : ℤ) = withSign negative (m * Nat.pow 2 e.toNat) := by
    exact_mod_cast hi
  rw [truncate?, hx]
  cases negative with
  | false =>
    have hdiv : ((m * Nat.pow 2 e.toNat : ℕ) : ℤ) / ((2 ^ (-e).toNat : ℕ) : ℤ) = i :=
      Int.ediv_eq_of_eq_mul_left (by positivity) hi.symm
    exact congrArg some (by exact_mod_cast hdiv)
  | true =>
    have hdiv : ((m * Nat.pow 2 e.toNat : ℕ) : ℤ) / ((2 ^ (-e).toNat : ℕ) : ℤ) = -i := by
      refine Int.ediv_eq_of_eq_mul_left (by positivity) ?_
      rw [Int.neg_mul, hi]
      simp [withSign]
    refine congrArg some (Int.neg_inj.mp ?_)
    rw [← hdiv]
    simp [withSign]

end IntegerParts

/-! ### Unpacking -/

/-- The sign is the minus sign. -/
def isNegative : Sign → Bool
  | .negative => true
  | .positive => false

/-- The exact number of an unpacked double. -/
def ofUnpacked : UnpackedFloat → Binary
  | .notANumber => .nan
  | .infinity sign => .infinite (isNegative sign)
  | .zero sign => .finite (isNegative sign) 0 (-1074)
  | .finite sign m e _ => .finite (isNegative sign) m e

section Fields

variable (b : BitVec Format.binary64.numBits)

theorem toNat_unpackMantissa : (unpackMantissa b).toNat = b.toNat % 2 ^ 52 := by
  simp [unpackMantissa]

theorem toNat_unpackExponent : (unpackExponent b).toNat = b.toNat / 2 ^ 52 % 2 ^ 11 := by
  simp [unpackExponent, Nat.shiftRight_eq_div_pow]

theorem isNegative_unpackSign :
    isNegative (Sign.ofBitVec (unpackSign b)) = (b.toNat / 2 ^ 63 % 2 == 1) := by
  have hsign : (unpackSign b).toNat = b.toNat / 2 ^ 63 % 2 := by
    simp [unpackSign, Nat.shiftRight_eq_div_pow]
  rw [Sign.ofBitVec, ← hsign]
  generalize unpackSign b = sign
  revert sign
  decide

end Fields

/-- What is unpacked from a sign, an exponent field and a mantissa field. -/
inductive Unpacks (sign : Sign) : ℕ → ℕ → UnpackedFloat → Prop
  | infinity : Unpacks sign 2047 0 (.infinity sign)
  | notANumber {mantissa : ℕ} (h : mantissa ≠ 0) : Unpacks sign 2047 mantissa .notANumber
  | zero : Unpacks sign 0 0 (.zero sign)
  | subnormal {mantissa : ℕ} (h : 0 < mantissa) :
    Unpacks sign 0 mantissa (.finite sign mantissa (-1074) h)
  | normal {exponent mantissa : ℕ} (hlow : exponent ≠ 0) (hhigh : exponent ≠ 2047)
    (h : 0 < 2 ^ 52 + mantissa) :
    Unpacks sign exponent mantissa (.finite sign (2 ^ 52 + mantissa) (exponent - 1075) h)

theorem unpacks (b : BitVec Format.binary64.numBits) :
    Unpacks (Sign.ofBitVec (unpackSign b)) (unpackExponent b).toNat (unpackMantissa b).toNat
      (unpack Format.binary64 b) := by
  have hones : unpackExponent b = -1#_ ↔ (unpackExponent b).toNat = 2047 := BitVec.toNat_inj.symm
  have hzero : unpackExponent b = 0#_ ↔ (unpackExponent b).toNat = 0 := BitVec.toNat_inj.symm
  have hempty : unpackMantissa b = 0#_ ↔ (unpackMantissa b).toNat = 0 := BitVec.toNat_inj.symm
  have himplicit : (1#1 ++ unpackMantissa b).toNat = 2 ^ 52 + (unpackMantissa b).toNat := by
    rw [BitVec.toNat_append, ← Nat.shiftLeft_add_eq_or_of_lt (unpackMantissa b).isLt]
    rfl
  simp only [unpack, hones, hzero, hempty, himplicit]
  split
  case isTrue hinf =>
    rw [hinf]
    split
    case isTrue hnone =>
      rw [hnone]
      exact .infinity
    case isFalse hsome => exact .notANumber hsome
  case isFalse hfinite =>
    split
    case isTrue hsub =>
      rw [hsub]
      split
      case isTrue hnone =>
        rw [hnone]
        exact .zero
      case isFalse hsome => exact .subnormal (Nat.pos_of_ne_zero hsome)
    case isFalse hnormal => exact .normal hnormal hfinite _

theorem Unpacks.unique {sign : Sign} {exponent mantissa : ℕ} {u u' : UnpackedFloat}
    (h : Unpacks sign exponent mantissa u) (h' : Unpacks sign exponent mantissa u') : u = u' := by
  cases h <;> cases h' <;> first | rfl | contradiction

/-- The bits of a word and the unpacked word tell the same number. Arithmetic is done on unpacked
words and texts are read into bits; this is where the two accounts meet. -/
theorem ofBits_eq_ofUnpacked (bits : UInt64) :
    Binary.ofBits bits = ofUnpacked (unpack Format.binary64 bits.toBitVec) := by
  obtain ⟨b, hb⟩ : ∃ b : BitVec Format.binary64.numBits, b = bits.toBitVec := ⟨_, rfl⟩
  have hbits : bits.toNat = b.toNat := congrArg BitVec.toNat hb.symm
  have hunpacks := unpacks b
  rw [Binary.ofBits, Nat.pow_eq, Nat.pow_eq, Nat.pow_eq, hbits, ← toNat_unpackExponent,
    ← toNat_unpackMantissa, ← isNegative_unpackSign, ← hb]
  generalize unpack Format.binary64 b = u at hunpacks ⊢
  generalize (unpackExponent b).toNat = exponent at hunpacks ⊢
  generalize (unpackMantissa b).toNat = mantissa at hunpacks ⊢
  cases hunpacks with
  | infinity => rfl
  | notANumber h => simp [h, ofUnpacked]
  | zero => rfl
  | subnormal h => rfl
  | normal hlow hhigh h => simp [hlow, hhigh, ofUnpacked]

/-! ### Packing -/

/-- The form in which numbers are unpacked: 53 digits, of which the first is one unless the exponent
is the smallest. -/
def Canonical : UnpackedFloat → Prop
  | .finite _ m e _ => m < 2 ^ 53 ∧ (2 ^ 52 ≤ m ∨ e = -1074) ∧ -1074 ≤ e ∧ e ≤ 971
  | _ => True

theorem canonical_unpack (b : BitVec Format.binary64.numBits) :
    Canonical (unpack Format.binary64 b) := by
  have hunpacks := unpacks b
  have hexponent : (unpackExponent b).toNat < 2 ^ 11 := (unpackExponent b).isLt
  have hmantissa : (unpackMantissa b).toNat < 2 ^ 52 := (unpackMantissa b).isLt
  generalize unpack Format.binary64 b = u at hunpacks ⊢
  generalize (unpackExponent b).toNat = exponent at *
  generalize (unpackMantissa b).toNat = mantissa at *
  cases hunpacks with
  | infinity | notANumber | zero => trivial
  | subnormal h => exact ⟨by omega, .inr rfl, by omega, by omega⟩
  | normal hlow hhigh h => exact ⟨by omega, .inl (by omega), by omega, by omega⟩

/-- The fields of a word are what it was packed from. -/
theorem unpack_packComponents {sign : Sign} {exponent : BitVec 11} {mantissa : BitVec 52}
    {u : UnpackedFloat} (h : Unpacks sign exponent.toNat mantissa.toNat u) :
    unpack Format.binary64 (packComponents Format.binary64 sign exponent mantissa) = u := by
  have hunpacks := unpacks (packComponents Format.binary64 sign exponent mantissa)
  rw [unpackSign_packComponents, Sign.ofBitVec_toBitVec, unpackExponent_packComponents,
    unpackMantissa_packComponents] at hunpacks
  exact hunpacks.unique h

/-- Packing loses nothing of a number in canonical form. Others may come back with another exponent,
so it has to be shown of every operation that its result is in this form. -/
theorem unpack_pack {u : UnpackedFloat} (h : Canonical u) :
    unpack Format.binary64 (pack Format.binary64 u) = u := by
  cases u with
  | infinity sign => exact unpack_packComponents .infinity
  | notANumber => exact unpack_packComponents (.notANumber (by decide))
  | zero sign => exact unpack_packComponents .zero
  | finite sign m e hpos =>
    obtain ⟨hm, hfirst, hlow, hhigh⟩ := h
    have hfits : ¬ 2048 ≤ (e + (1023 : ℕ) + (52 : ℕ)).toNat + 1 := by omega
    have hpack : pack Format.binary64 (.finite sign m e hpos) =
        if m.log2 + 1 = 53 then packComponents Format.binary64 sign
          (BitVec.ofNat 11 (e + (1023 : ℕ) + (52 : ℕ)).toNat) (BitVec.ofNat 52 m)
        else packComponents Format.binary64 sign 0#11 (BitVec.ofNat 52 m) := if_neg hfits
    rw [hpack]
    by_cases hnormal : 2 ^ 52 ≤ m
    · have hlog : m.log2 = 52 := (Nat.log2_eq_iff hpos.ne').mpr ⟨hnormal, hm⟩
      rw [hlog, if_pos rfl]
      refine unpack_packComponents ?_
      have hmantissa : (BitVec.ofNat 52 m).toNat = m - 2 ^ 52 := by
        rw [BitVec.toNat_ofNat]
        omega
      have hexponent : (BitVec.ofNat 11 (e + (1023 : ℕ) + (52 : ℕ)).toNat).toNat =
          (e + 1075).toNat := by
        rw [BitVec.toNat_ofNat]
        omega
      have hunpacks : Unpacks sign (e + 1075).toNat (m - 2 ^ 52) _ :=
        .normal (by omega) (by omega) (by omega)
      rw [hexponent, hmantissa]
      convert hunpacks using 2 <;> omega
    · have hlog : m.log2 < 52 := (Nat.log2_lt hpos.ne').mpr (Nat.lt_of_not_le hnormal)
      rw [if_neg (by omega)]
      refine unpack_packComponents ?_
      have hmantissa : (BitVec.ofNat 52 m).toNat = m := by
        rw [BitVec.toNat_ofNat]
        omega
      obtain rfl := hfirst.resolve_left hnormal
      rw [hmantissa]
      exact .subnormal hpos

theorem ofFloat_pack {u : UnpackedFloat} (h : Canonical u) :
    Binary.ofFloat ⟨Float.Model.pack u⟩ = ofUnpacked u :=
  (ofBits_eq_ofUnpacked _).trans (congrArg ofUnpacked (unpack_pack h))

/-- A double made of bits stands for what the bits tell. -/
theorem ofFloat_ofBits (bits : UInt64) : Binary.ofFloat (Float.ofBits bits) = Binary.ofBits bits :=
  (ofFloat_pack (canonical_unpack _)).trans (ofBits_eq_ofUnpacked bits).symm

/-! ### The numbers of doubles -/

section Numbers

variable {x y : Float} {v : ℚ}

/-- A finite double is its sign, 53 digits and an exponent. -/
theorem digits_of_ofFloat {negative : Bool} {m : Nat} {e : Int}
    (h : Binary.ofFloat x = .finite negative m e) :
    m < 2 ^ 53 ∧ (2 ^ 52 ≤ m ∨ e = -1074) ∧ -1074 ≤ e := by
  have hcanonical := canonical_unpack x.toBits.toBitVec
  rw [Binary.ofFloat, ofBits_eq_ofUnpacked] at h
  cases hu : unpack Format.binary64 x.toBits.toBitVec with
  | infinity sign => simp [hu, ofUnpacked] at h
  | notANumber => simp [hu, ofUnpacked] at h
  | zero sign =>
    rw [hu] at h
    cases h
    exact ⟨by norm_num, .inr rfl, le_rfl⟩
  | finite sign m e hpos =>
    rw [hu] at h hcanonical
    cases h
    exact ⟨hcanonical.1, hcanonical.2.1, hcanonical.2.2.1⟩

theorem representable_of_toRat? (h : toRat? x = some v) : Representable v := by
  obtain ⟨negative, m, e, hx, rfl⟩ := exists_of_toRat? h
  obtain ⟨hm, -, he⟩ := digits_of_ofFloat hx
  refine ⟨withSign negative m, e, ?_, he, rfl⟩
  rw [withSign, abs_le]
  split <;> omega

/-- The bits of a finite double: the exponent counts from the smallest one, and the first digit of
the mantissa carries into it. -/
theorem toNat_toBits {negative : Bool} {m : Nat} {e : Int}
    (h : Binary.ofFloat x = .finite negative m e) :
    x.toBits.toNat = (if negative then 2 ^ 63 else 0) + (e + 1074).toNat * 2 ^ 52 + m := by
  have hword : x.toBits.toNat < 2 ^ 64 := x.toBits.toNat_lt
  rw [Binary.ofFloat, Binary.ofBits, Nat.pow_eq, Nat.pow_eq, Nat.pow_eq] at h
  generalize x.toBits.toNat = bits at h hword ⊢
  split at h
  · split at h <;> cases h
  · split at h
    all_goals
      obtain ⟨rfl, rfl, rfl⟩ := Binary.finite.inj h
      simp only [beq_iff_eq]
      split <;> omega

/-- Of two equal numbers in canonical form neither has the smaller exponent. -/
theorem exponent_le {m m' : ℕ} {e e' : ℤ} (hm : m < 2 ^ 53) (he : -1074 ≤ e)
    (hfirst : 2 ^ 52 ≤ m' ∨ e' = -1074) (h : (m * 2 ^ e : ℚ) = m' * 2 ^ e') : e' ≤ e := by
  by_contra hlt
  have hm' : ((2 ^ 52 : ℕ) : ℚ) ≤ m' := Nat.cast_le.mpr (hfirst.resolve_right (by omega))
  have hcoarse : (2 : ℚ) * 2 ^ e ≤ 2 ^ e' := by
    rw [← zpow_one_add₀ two_ne_zero]
    exact zpow_le_zpow_right₀ one_le_two (by omega)
  have hlarge : ((2 ^ 53 : ℕ) : ℚ) * 2 ^ e ≤ m * 2 ^ e :=
    calc ((2 ^ 53 : ℕ) : ℚ) * 2 ^ e = ((2 ^ 52 : ℕ) : ℚ) * (2 * 2 ^ e) := by
          push_cast
          ring
      _ ≤ m' * 2 ^ e' :=
        mul_le_mul hm' hcoarse (mul_nonneg zero_le_two (zpow_pos two_pos e).le) m'.cast_nonneg
      _ = m * 2 ^ e := h.symm
  have hle : 2 ^ 53 ≤ m := Nat.cast_le.mp (le_of_mul_le_mul_right hlarge (zpow_pos two_pos e))
  omega

/-- Numbers other than zero have one double. Zero has two, with a sign and without. -/
theorem eq_of_toRat?_eq (hx : toRat? x = some v) (hy : toRat? y = some v) (hv : v ≠ 0) : x = y := by
  obtain ⟨negative, m, e, hxbits, hxv⟩ := exists_of_toRat? hx
  obtain ⟨negative', m', e', hybits, hyv⟩ := exists_of_toRat? hy
  have hshow : ∀ (negative : Bool) (m : ℕ) (e : ℤ), v = withSign negative m * 2 ^ e →
      negative = decide (v < 0) ∧ (m * 2 ^ e : ℚ) = |v| := by
    rintro negative m e rfl
    have hpos : (0 : ℚ) < 2 ^ e := zpow_pos two_pos e
    have hm : (0 : ℚ) ≤ m * 2 ^ e := mul_nonneg m.cast_nonneg hpos.le
    cases negative with
    | false =>
      simp only [withSign, Bool.false_eq_true, if_false, Int.cast_natCast] at hv ⊢
      exact ⟨(decide_eq_false hm.not_gt).symm, (abs_of_nonneg hm).symm⟩
    | true =>
      simp only [withSign, if_true, Int.cast_neg, Int.cast_natCast, neg_mul] at hv ⊢
      have hneg : -(m * 2 ^ e : ℚ) < 0 := lt_of_le_of_ne (by linarith) hv
      exact ⟨(decide_eq_true hneg).symm, by rw [abs_neg, abs_of_nonneg hm]⟩
  obtain ⟨hm, hfirst, he⟩ := digits_of_ofFloat hxbits
  obtain ⟨hm', hfirst', he'⟩ := digits_of_ofFloat hybits
  obtain ⟨hsign, habs⟩ := hshow negative m e hxv
  obtain ⟨hsign', habs'⟩ := hshow negative' m' e' hyv
  have hvalue := habs.trans habs'.symm
  obtain rfl : e = e' :=
    le_antisymm (exponent_le hm' he' hfirst hvalue.symm) (exponent_le hm he hfirst' hvalue)
  obtain rfl : m = m' := Nat.cast_injective (mul_right_cancel₀ (zpow_pos two_pos e).ne' hvalue)
  rw [← Float.toBits_inj, ← UInt64.toNat_inj, toNat_toBits hxbits, toNat_toBits hybits, hsign,
    hsign']

end Numbers

end GraphMapping.Decimal
