import GraphMapping.Property.Kind
import GraphMapping.Proofs.Decimal.Nearest
import GraphMapping.Proofs.Json.Scalars
import GraphMapping.Proofs.Text.Trimming

/-!
# Integers as text

A text property writes an integer with all its digits. A property of integers or counters reads the
text as a number of any form, for which it takes the closest double, and cuts off what is behind the
point. Blanks around the text are trimmed. So the integers that come back are those with 53 binary
digits, and the largest integer, for which the double is one too large and is kept inside the range.

## Main results

* `Decimal.readFloat_toString`: the double that the text of an integer is read as.
* `Decimal.toInt64Clamped_ofInt_iff`, `Decimal.abs_toInt64Clamped_sub_le`: which integers survive as
  doubles, and how far off the others are.
* `Kind.toNative_integerText`: which integers survive as text.
-/

namespace GraphMapping

/-! ### Reading the text of an integer -/

namespace Decimal

theorem toNat_of_isDigit {c : Char} (h : isDigit c = true) : 48 ≤ c.toNat ∧ c.toNat ≤ 57 := by
  simp only [isDigit, Bool.and_eq_true, decide_eq_true_eq] at h
  exact h

/-- Digits are read as the number that they write. -/
theorem readUnsigned_toDigits (n : ℕ) : readUnsigned (Nat.toDigits 10 n) = some ⟨n, 0⟩ := by
  have hdigits : ∀ c ∈ Nat.toDigits 10 n, isDigit c = true := fun _ => isDigit_of_mem_toDigits
  have htake : (Nat.toDigits 10 n).takeWhile isDigit = Nat.toDigits 10 n :=
    List.takeWhile_eq_self_iff.mpr hdigits
  have hdrop : (Nat.toDigits 10 n).dropWhile isDigit = [] := List.dropWhile_eq_nil_iff.mpr hdigits
  rw [readUnsigned, htake, hdrop]
  simp [Nat.toDigits_ne_nil, digitsValue_eq, Nat.ofDigitChars_ten_toDigits]

theorem nearestDecimal_zero (negative : Bool) (n : ℕ) :
    nearestDecimal negative n 0 = nearest negative n 1 := by
  rw [nearestDecimal]
  split
  case isTrue h => rw [h]
  case isFalse h =>
    rw [if_neg (by omega), if_neg (by omega)]
    exact congrArg (nearest negative · 1) (Nat.mul_one n)

/-- A text that begins with a digit has no sign. -/
theorem readFloat_of_isDigit {s : String} {c : Char} {cs : List Char} (hs : s.toList = c :: cs)
    (hc : isDigit c = true) {literal : Unsigned} (h : readUnsigned (c :: cs) = some literal) :
    readFloat s = some (nearestDecimal false literal.digits literal.exponent) := by
  have hminus : isDigit '-' = false := by decide
  have hplus : isDigit '+' = false := by decide
  rw [readFloat, hs]
  split
  case h_1 negative rest heq =>
    obtain ⟨rfl, rfl⟩ : negative = false ∧ rest = c :: cs := by
      split at heq <;> simp_all
    rw [h]

/-- The text of an integer is read as the double closest to it. A text goes through a double on its
way to an integer property, and this double is all that is left of its digits. -/
theorem readFloat_toString (i : ℤ) : readFloat (toString i) = some (ofInt i) := by
  cases i with
  | ofNat n =>
    obtain ⟨d, ds, hds, hd⟩ := Json.exists_cons_toDigits n
    have hread := readUnsigned_toDigits n
    rw [hds] at hread
    rw [readFloat_of_isDigit ((Json.toList_toString_ofNat n).trans hds) hd hread,
      nearestDecimal_zero, ofInt]
    exact congrArg (fun negative => some (nearest negative n 1))
      (decide_eq_false (Int.natCast_nonneg n).not_gt).symm
  | negSucc n =>
    rw [readFloat, Json.toList_toString_negSucc]
    simp only [readUnsigned_toDigits, nearestDecimal_zero]
    rw [ofInt, decide_eq_true (Int.negSucc_lt_zero n), Int.natAbs_negSucc]

end Decimal

/-- Nothing but the blanks around an integer is trimmed. -/
theorem trim_toString_int (i : ℤ) {front back : String}
    (hfront : ∀ c ∈ front.toList, Text.isBlank c = true)
    (hback : ∀ c ∈ back.toList, Text.isBlank c = true) :
    Text.trim (front ++ toString i ++ back) = toString i := by
  have hdigit : ∀ {c}, Decimal.isDigit c = true → Text.isBlank c = false := by
    intro c hc
    have hrange := Decimal.toNat_of_isDigit hc
    simp [Text.isBlank, Text.blankRanges]
    omega
  have hvisible : ∀ c ∈ (toString i).toList, Text.isBlank c = false := by
    intro c hc
    cases i with
    | ofNat n =>
      rw [Json.toList_toString_ofNat] at hc
      exact hdigit (Decimal.isDigit_of_mem_toDigits hc)
    | negSucc n =>
      rw [Json.toList_toString_negSucc] at hc
      rcases List.mem_cons.mp hc with rfl | hc
      · decide
      · exact hdigit (Decimal.isDigit_of_mem_toDigits hc)
  have htrims : Text.Trims (front ++ toString i ++ back).toList (toString i).toList :=
    { split := ⟨front.toList, back.toList, by simp, hfront, hback⟩
      head := fun c hc => hvisible c (List.mem_of_head? hc)
      last := fun c hc => hvisible c (List.mem_of_getLast? hc) }
  rw [Text.trim, htrims.trimList_eq, String.ofList_toList]

/-! ### Integers as doubles -/

namespace Decimal

/-- A representable integer has 53 binary digits and zeros behind them. -/
theorem representable_intCast_iff {i : ℤ} :
    Representable i ↔ ∃ m k : ℕ, m ≤ 2 ^ 53 ∧ i.natAbs = m * 2 ^ k := by
  constructor
  · rintro ⟨m, e, hm, -, hi⟩
    have hdigits : m.natAbs ≤ 2 ^ 53 := by
      rw [Int.abs_eq_natAbs] at hm
      exact_mod_cast hm
    rcases le_or_gt 0 e with hnonneg | hneg
    · refine ⟨m.natAbs, e.toNat, by omega, ?_⟩
      have hpow : (2 : ℚ) ^ e = ((2 ^ e.toNat : ℤ) : ℚ) := by
        rw [Int.cast_pow, Int.cast_ofNat, ← zpow_natCast, Int.toNat_of_nonneg hnonneg]
      have hi : i = m * 2 ^ e.toNat := by
        rw [hpow] at hi
        exact_mod_cast hi
      rw [hi, Int.natAbs_mul, Int.natAbs_pow]
      rfl
    · -- the digits behind the point are zero
      have hle : |(i : ℚ)| ≤ |(m : ℚ)| := by
        rw [hi, abs_mul, abs_of_pos (zpow_pos two_pos e : (0 : ℚ) < 2 ^ e)]
        exact mul_le_of_le_one_right (abs_nonneg _) (zpow_le_one_of_nonpos₀ one_le_two hneg.le)
      have hle : |i| ≤ |m| := by exact_mod_cast hle
      rw [Int.abs_eq_natAbs, Int.abs_eq_natAbs, Int.ofNat_le] at hle
      exact ⟨i.natAbs, 0, hle.trans hdigits, by rw [pow_zero, Nat.mul_one]⟩
  · rintro ⟨m, k, hm, hi⟩
    have hrepresentable : Representable ((m : ℤ) * 2 ^ (k : ℤ)) :=
      ⟨m, k, by rw [Nat.abs_cast]; exact_mod_cast hm, by omega, rfl⟩
    have habs : ((i.natAbs : ℕ) : ℚ) = (m : ℤ) * 2 ^ (k : ℤ) := by
      rw [hi, zpow_natCast]
      push_cast
      rfl
    rw [← habs] at hrepresentable
    rcases Int.natAbs_eq i with hpos | hneg
    · rw [hpos, Int.cast_natCast]
      exact hrepresentable
    · rw [hneg, Int.cast_neg, Int.cast_natCast]
      exact hrepresentable.neg

/-- A double closest to an integer is an integer. -/
theorem Closest.exists_intCast {v : ℚ} {i : ℤ} (h : Closest v i) : ∃ j : ℤ, v = j := by
  rcases le_total |i| (2 ^ 53) with hsmall | hlarge
  · exact ⟨i, h.eq_of_representable (.intCast hsmall)⟩
  · have hlarge : (2 : ℚ) ^ 52 * 2 ^ (0 : ℤ) ≤ |v| := by
      rw [zpow_zero, mul_one]
      refine h.le_abs_of_le_abs (.intCast (i := 2 ^ 52) (by norm_num)) ?_
      exact_mod_cast le_trans (by norm_num) hlarge
    obtain ⟨j, hj⟩ := h.representable.onGrid hlarge
    exact ⟨j, by rw [hj, zpow_zero, mul_one]⟩

section MachineIntegers

variable (i : Int64)

/-- A machine integer as a double and back: the closest integer that is representable, which may be
one more than the largest machine integer. -/
theorem toInt64Clamped_ofInt : ∃ v : ℤ, Closest v (i.toInt : ℚ) ∧ |v| ≤ 2 ^ 63 ∧
    toInt64Clamped (ofInt i.toInt) = clampInt64 v := by
  have hword : |(i.toInt : ℚ)| ≤ ((2 ^ 63 : ℤ) : ℚ) := by
    exact_mod_cast abs_le.mpr ⟨i.le_toInt, i.toInt_lt.le⟩
  have hrepresentable : Representable ((2 ^ 63 : ℤ) : ℚ) :=
    representable_intCast_iff.mpr ⟨1, 63, by norm_num, rfl⟩
  obtain ⟨v, hv, hclosest⟩ := rounds_ofInt (lt_bound (hword.trans (by norm_num)))
  obtain ⟨j, rfl⟩ := hclosest.exists_intCast
  refine ⟨j, hclosest, by exact_mod_cast hclosest.abs_le_of_abs_le hrepresentable hword, ?_⟩
  obtain ⟨negative, m, e, hfinite, -⟩ := exists_of_toRat? hv
  rw [toInt64Clamped, hfinite, truncate?_eq hv]
  rfl

/-- The largest machine integer is rounded up. It has 63 binary digits, all of them ones, and the
double next to it is a power of two that no machine integer reaches. -/
theorem Closest.eq_of_maxValue {v : ℤ} (h : Closest v (Int64.maxValue.toInt : ℚ)) : v = 2 ^ 63 := by
  have hmax : (Int64.maxValue.toInt : ℚ) = 2 ^ 63 - 1 := by
    have hword : Int64.maxValue.toInt = 2 ^ 63 - 1 := rfl
    rw [hword]
    norm_num
  rw [hmax] at h
  have hpow : Representable ((2 ^ 62 : ℤ) : ℚ) :=
    representable_intCast_iff.mpr ⟨1, 62, by norm_num, rfl⟩
  have hnext : Representable ((2 ^ 63 : ℤ) : ℚ) :=
    representable_intCast_iff.mpr ⟨1, 63, by norm_num, rfl⟩
  have hlarge : ((2 ^ 62 : ℤ) : ℚ) ≤ |(v : ℚ)| := h.le_abs_of_le_abs hpow (by norm_num)
  have herr : |(v : ℚ) - (2 ^ 63 - 1)| ≤ 1 := (h.abs_sub_le _ hnext).trans (by norm_num)
  have hgrid : OnGrid 10 (v : ℚ) := h.representable.onGrid (by norm_num at hlarge ⊢; exact hlarge)
  have hgrid' : OnGrid 10 ((2 ^ 63 : ℤ) : ℚ) := ⟨2 ^ 53, by norm_num⟩
  have heq := hgrid.eq_of_abs_sub_lt hgrid' (by
    rw [abs_le] at herr
    norm_num at herr ⊢
    exact abs_lt.mpr ⟨by linarith, by linarith⟩)
  exact_mod_cast heq

/-- Survivors are the largest integer and the representable ones. The largest one is rounded up, out
of the range, and clamped to the end of the range again, where it was before. -/
theorem toInt64Clamped_ofInt_iff :
    toInt64Clamped (ofInt i.toInt) = i ↔
      i = Int64.maxValue ∨ ∃ m k : ℕ, m ≤ 2 ^ 53 ∧ i.toInt.natAbs = m * 2 ^ k := by
  obtain ⟨v, hclosest, hsize, hclamp⟩ := toInt64Clamped_ofInt i
  rw [hclamp, ← representable_intCast_iff]
  obtain ⟨hlow, hhigh⟩ := abs_le.mp hsize
  rcases hhigh.lt_or_eq with hlt | rfl
  · have hkept : (clampInt64 v).toInt = v := clampInt64_of_mem hlow (Int.le_of_lt_add_one hlt)
    rw [← Int64.toInt_inj, hkept]
    constructor
    · rintro rfl
      exact .inr hclosest.representable
    · rintro (rfl | hrepresentable)
      · exact absurd hclosest.eq_of_maxValue hlt.ne
      · exact_mod_cast hclosest.eq_of_representable hrepresentable
  · have hmax : clampInt64 (2 ^ 63) = Int64.maxValue := rfl
    rw [hmax]
    constructor
    · rintro rfl
      exact .inl rfl
    · rintro (rfl | hrepresentable)
      · rfl
      · have heq : (2 ^ 63 : ℤ) = i.toInt := by
          exact_mod_cast hclosest.eq_of_representable hrepresentable
        exact absurd i.toInt_lt heq.le.not_gt

theorem abs_toInt64Clamped_sub_le : |(toInt64Clamped (ofInt i.toInt)).toInt - i.toInt| ≤ 512 := by
  obtain ⟨v, hclosest, hsize, hclamp⟩ := toInt64Clamped_ofInt i
  have hword : |i.toInt| ≤ 2 ^ 63 := abs_le.mpr ⟨i.le_toInt, i.toInt_lt.le⟩
  have herr : |v - i.toInt| ≤ 512 := by
    have hhalf := hclosest.abs_sub_le_half (e := 10) (by norm_num) (by
      norm_num
      exact_mod_cast hword)
    norm_num at hhalf
    exact_mod_cast hhalf
  rw [hclamp]
  obtain ⟨hlow, hhigh⟩ := abs_le.mp hsize
  rcases hhigh.lt_or_eq with hlt | rfl
  · rwa [clampInt64_of_mem hlow (Int.le_of_lt_add_one hlt)]
  · -- the largest machine integer lies between
    have hmax : (clampInt64 (2 ^ 63)).toInt = 2 ^ 63 - 1 := rfl
    have hlt := i.toInt_lt
    rw [hmax]
    rw [abs_le] at herr ⊢
    omega

end MachineIntegers

end Decimal

/-- The text of an integer is read as one and the same integer, whatever blanks stand around it. It
is the integer that was written if this has 53 binary digits and zeros behind them, or is the
largest there is, and otherwise another one at most 512 away. -/
theorem Kind.toNative_integerText (kind : Kind) (hkind : kind = .integer ∨ kind = .increment)
    (i : Int64) :
    ∃ text j, Kind.string.toNative (.integer i) = .string text ∧
      kind.toNative (Kind.string.toNative (.integer i)) = .integer j ∧
      (∀ front back : String, (∀ c ∈ front.toList, Text.isBlank c = true) →
        (∀ c ∈ back.toList, Text.isBlank c = true) →
        kind.toNative (.string (front ++ text ++ back)) = .integer j) ∧
      (j = i ↔ i = Int64.maxValue ∨ ∃ m k : ℕ, m ≤ 2 ^ 53 ∧ i.toInt.natAbs = m * 2 ^ k) ∧
      |j.toInt - i.toInt| ≤ 512 := by
  have hread : ∀ front back : String, (∀ c ∈ front.toList, Text.isBlank c = true) →
      (∀ c ∈ back.toList, Text.isBlank c = true) →
      kind.toNative (.string (front ++ toString i.toInt ++ back)) =
        .integer (Decimal.toInt64Clamped (Decimal.ofInt i.toInt)) := by
    intro front back hfront hback
    rcases hkind with rfl | rfl
    all_goals
      simp only [toNative, integerOf?, trim_toString_int i.toInt hfront hback,
        Decimal.readFloat_toString, Option.map_some, Option.getD_some]
  have hplain := hread "" "" (by simp) (by simp)
  rw [String.append_empty, String.empty_append] at hplain
  exact ⟨toString i.toInt, _, rfl, hplain, hread, Decimal.toInt64Clamped_ofInt_iff i,
    Decimal.abs_toInt64Clamped_sub_le i⟩

/-- A counter with blanks around it. It is larger than `2 ^ 53` and even. -/
theorem Kind.toNative_integerText_padded :
    Kind.increment.toNative (.string "\t9007199254740994 ") = .integer 9007199254740994 := by
  obtain ⟨text, j, htext, -, hblanks, hkept, -⟩ :=
    Kind.toNative_integerText .increment (.inr rfl) 9007199254740994
  have hwritten : Kind.string.toNative (.integer 9007199254740994) =
      .string "9007199254740994" := rfl
  obtain rfl : "9007199254740994" = text := Value.string.inj (hwritten.symm.trans htext)
  rw [hkept.mpr (.inr ⟨4503599627370497, 1, by norm_num, rfl⟩)] at hblanks
  exact hblanks "\t" " " (by simp [Text.isBlank, Text.blankRanges])
    (by simp [Text.isBlank, Text.blankRanges])

/-- The first integer with 54 binary digits of which the last is one does not come back. -/
theorem Kind.integerText_changes :
    Kind.integer.toNative (Kind.string.toNative (.integer 9007199254740993)) =
        .integer 9007199254740992 ∧
      ¬∀ i : Int64, Kind.integer.toNative (Kind.string.toNative (.integer i)) = .integer i := by
  have hread : Kind.integer.toNative (Kind.string.toNative (.integer 9007199254740993)) =
      .integer 9007199254740992 := rfl
  refine ⟨hread, fun hall => ?_⟩
  have hequal : (9007199254740992 : Int64) = 9007199254740993 :=
    Value.integer.inj (hread.symm.trans (hall _))
  exact absurd hequal (by decide)

end GraphMapping
