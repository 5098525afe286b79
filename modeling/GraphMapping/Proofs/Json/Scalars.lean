import GraphMapping.Json.Reader
import GraphMapping.Json.Writer
import GraphMapping.Proofs.Text.Runs

/-!
# Strings and integers as JSON text

What is written for a string or an integer is read back, whatever follows a string and as long as an
integer is followed by something that no number goes on with. Inside a string every character is
written as one unit that is read at a time, however it is escaped. An integer is its digits, of which
no 64-bit word has too many.

## Main definitions

* `Stops`: the text does not go on with a number in front of it.

## Main results

* `readChar?_escapeChar`: a character is read back, escaped or not.
* `readString_quoted`: a string is read back.
* `readNumber_integer`: an integer is read back.
-/

namespace GraphMapping.Json

open Decimal (isDigit)

/-! ### Strings -/

/-- How a character is written: escaped by a letter that stands for it, escaped by its number, or as
it is. -/
theorem escapeChar_cases (c : Char) :
    (∃ letter, escapeChar c = ['\\', letter] ∧ letter ≠ 'u' ∧ escaped? letter = some c) ∨
      (c.toNat < 0x20 ∧
        escapeChar c = ['\\', 'u', '0', '0', hexDigit (c.toNat / 16), hexDigit (c.toNat % 16)]) ∨
      (escapeChar c = [c] ∧ c ≠ '"' ∧ c ≠ '\\' ∧ 0x20 ≤ c.toNat) := by
  by_cases hletter : c ∈ ['"', '\\', '\n', '\r', '\t', '\x08', '\x0c']
  · left
    simp only [List.mem_cons, List.not_mem_nil, or_false] at hletter
    rcases hletter with rfl | rfl | rfl | rfl | rfl | rfl | rfl <;>
      exact ⟨_, rfl, by decide, rfl⟩
  · right
    simp only [List.mem_cons, List.not_mem_nil, or_false, not_or] at hletter
    obtain ⟨hquote, hbackslash, hn, hr, ht, hb, hf⟩ := hletter
    rw [escapeChar, if_neg hquote, if_neg hbackslash, if_neg hn, if_neg hr, if_neg ht, if_neg hb,
      if_neg hf]
    by_cases hcontrol : c.toNat < 0x20
    · exact .inl ⟨hcontrol, if_pos hcontrol⟩
    · exact .inr ⟨if_neg hcontrol, hquote, hbackslash, Nat.not_lt.mp hcontrol⟩

theorem head?_escapeChar (c : Char) : ∃ d rest, escapeChar c = d :: rest ∧ d ≠ '"' := by
  rcases escapeChar_cases c with ⟨letter, h, -⟩ | ⟨-, h⟩ | ⟨h, hquote, -⟩
  · exact ⟨_, _, h, by decide⟩
  · exact ⟨_, _, h, by decide⟩
  · exact ⟨_, _, h, hquote⟩

theorem hex4?_hexDigit :
    ∀ n < 0x20, hex4? '0' '0' (hexDigit (n / 16)) (hexDigit (n % 16)) = some n := by
  decide

/-- A character is read back, escaped or not. There are three ways to write one, and each can be
told from the others by its first two characters, whatever comes behind. -/
theorem readChar?_escapeChar (c : Char) (rest : List Char) :
    readChar? (escapeChar c ++ rest) = some (c, rest) := by
  rcases escapeChar_cases c with ⟨letter, h, hne, hletter⟩ | ⟨hcontrol, h⟩ | ⟨h, hquote, hback, hc⟩
  · rw [h, List.cons_append, List.cons_append, List.nil_append, readChar?, hletter, Option.map_some]
    rintro a b c d rest' rfl
    exact absurd rfl hne
  · have hsmall : c.toNat < 0xD800 := Nat.lt_trans hcontrol (by decide)
    rw [h]
    simp only [List.cons_append, List.nil_append]
    rw [readChar?, hex4?_hexDigit _ hcontrol]
    simp [hsmall]
  · have hplain : ¬(c.toNat < 0x20 ∨ c = '\\' ∨ c = '"') := by
      rintro (hlt | heq | heq)
      · exact absurd hlt (Nat.not_lt.mpr hc)
      · exact hback heq
      · exact hquote heq
    rw [h, List.singleton_append, readChar?, if_neg hplain]
    · exact fun _ _ _ _ _ heq => absurd heq hback
    · exact fun _ _ heq => absurd heq hback

/-- The inside of a string literal is read back up to the closing quote. -/
theorem readChars_escaped (cs rest : List Char) {fuel : Nat} (h : cs.length < fuel) :
    readChars fuel (cs.flatMap escapeChar ++ '"' :: rest) = some (cs, rest) := by
  induction cs generalizing fuel with
  | nil =>
    obtain ⟨fuel, rfl⟩ := Nat.exists_eq_succ_of_ne_zero (Nat.ne_of_gt h)
    rfl
  | cons c cs ih =>
    obtain ⟨fuel, rfl⟩ := Nat.exists_eq_succ_of_ne_zero (Nat.ne_of_gt (Nat.zero_lt_of_lt h))
    obtain ⟨d, written, hwritten, hquote⟩ := head?_escapeChar c
    have hchar := readChar?_escapeChar c (cs.flatMap escapeChar ++ '"' :: rest)
    rw [List.flatMap_cons, List.append_assoc]
    rw [hwritten, List.cons_append] at hchar ⊢
    rw [readChars, hchar]
    · simp only [Option.bind_eq_bind, Option.bind_some, ih (Nat.lt_of_succ_lt_succ h), Option.pure_def]
    · exact fun _ heq => hquote (List.cons.inj heq).1

theorem length_le_escaped (cs : List Char) : cs.length ≤ (cs.flatMap escapeChar).length := by
  induction cs with
  | nil => exact Nat.le_refl 0
  | cons c cs ih =>
    obtain ⟨d, written, hwritten, -⟩ := head?_escapeChar c
    rw [List.flatMap_cons, List.length_append, hwritten, List.length_cons, List.length_cons]
    omega

theorem readString_quoted (s : String) (rest : List Char) :
    readString (s.toList.flatMap escapeChar ++ '"' :: rest) = some (s, rest) := by
  have hlength := length_le_escaped s.toList
  rw [readString, readChars_escaped s.toList rest]
  · simp only [Option.map_some, String.ofList_toList]
  · rw [List.length_append]
    omega

/-! ### Integers -/

/-- The text is over, or goes on with what may stand behind a value. -/
def Stops (rest : List Char) : Prop := ∀ c ∈ rest.head?, c = ',' ∨ c = ']' ∨ c = '}'

namespace Stops

variable {rest : List Char}

theorem nil : Stops [] := by rintro c ⟨⟩

theorem comma (rest : List Char) : Stops (',' :: rest) := by
  rintro c ⟨⟩
  exact .inl rfl

theorem bracket (rest : List Char) : Stops (']' :: rest) := by
  rintro c ⟨⟩
  exact .inr (.inl rfl)

theorem brace (rest : List Char) : Stops ('}' :: rest) := by
  rintro c ⟨⟩
  exact .inr (.inr rfl)

theorem isDigit_head? (h : Stops rest) : ∀ c ∈ rest.head?, isDigit c = false := by
  intro c hc
  rcases h c hc with rfl | rfl | rfl <;> rfl

theorem readFraction_eq (h : Stops rest) : readFraction rest = some (none, rest) := by
  rw [readFraction]
  rintro rest' rfl
  exact absurd (h '.' rfl) (by decide)

theorem readExponent_eq (h : Stops rest) : readExponent rest = some (none, rest) := by
  cases rest with
  | nil => rfl
  | cons c rest =>
    have hmark : ¬(c = 'e' ∨ c = 'E') := by
      rcases h c rfl with rfl | rfl | rfl <;> decide
    simp only [readExponent, if_neg hmark]

end Stops

/-- All digits are taken into a significand as long as their value has 64 bits. -/
theorem Significand.ofDigits_of_lt {ds : List Char} {start : Nat}
    (h : Nat.ofDigitChars 10 ds start < Nat.pow 2 64) :
    Significand.ofDigits start ds = ⟨Nat.ofDigitChars 10 ds start, ds.length, []⟩ := by
  induction ds generalizing start with
  | nil => rfl
  | cons d ds ih =>
    have hnext : 10 * start + Decimal.digitsValue [d] = 10 * start + (d.toNat - '0'.toNat) := by
      simp [Decimal.digitsValue_eq, Nat.ofDigitChars]
    have hvalue : Nat.ofDigitChars 10 (d :: ds) start =
        Nat.ofDigitChars 10 ds (10 * start + (d.toNat - '0'.toNat)) := rfl
    rw [hvalue] at h ⊢
    -- the digits to come only add to the value
    have hlt := Nat.lt_of_le_of_lt (Decimal.le_ofDigitChars ds _) h
    simp only [Significand.ofDigits, hnext, if_pos hlt, ih h, List.length_cons]

theorem readUnsigned_toDigits (negative : Bool) {n : Nat} (hn : n < Nat.pow 2 64)
    {rest : List Char} (hrest : Stops rest) :
    readUnsigned negative (Nat.toDigits 10 n ++ rest) =
      some ((wholeOffer negative n).value, rest) := by
  have hrun : ∀ c ∈ Nat.toDigits 10 n, isDigit c = true :=
    fun _ => Decimal.isDigit_of_mem_toDigits
  have hplain : ¬(Nat.toDigits 10 n = [] ∨
      ((Nat.toDigits 10 n).head? = some '0' ∧ 1 < (Nat.toDigits 10 n).length)) := by
    rintro (hnil | ⟨hzero, hlength⟩)
    · exact Nat.toDigits_ne_nil hnil
    · rw [Decimal.eq_zero_of_head?_toDigits hzero] at hlength
      exact absurd hlength (by decide)
  have hvalue : Significand.ofDigits 0 (Nat.toDigits 10 n) =
      ⟨n, (Nat.toDigits 10 n).length, []⟩ := by
    rw [Significand.ofDigits_of_lt] <;> rw [Nat.ofDigitChars_ten_toDigits]
    exact hn
  have hoffer : NumberText.offer? ⟨negative, Nat.toDigits 10 n, none, none⟩ =
      some (wholeOffer negative n) := by
    simp only [NumberText.offer?, hvalue]
  simp only [readUnsigned, takeWhile_run hrun hrest.isDigit_head?,
    dropWhile_run hrun hrest.isDigit_head?, if_neg hplain, hrest.readFraction_eq,
    hrest.readExponent_eq, hoffer, Option.bind_eq_bind, Option.bind_some, Option.pure_def]

theorem exists_cons_toDigits (n : Nat) :
    ∃ d ds, Nat.toDigits 10 n = d :: ds ∧ isDigit d = true := by
  obtain ⟨d, ds, h⟩ := List.exists_cons_of_ne_nil (Nat.toDigits_ne_nil (b := 10) (n := n))
  exact ⟨d, ds, h, Decimal.isDigit_of_mem_toDigits (by rw [h]; exact .head ds)⟩

theorem toList_toString_ofNat (n : Nat) : (toString (Int.ofNat n)).toList = Nat.toDigits 10 n :=
  Nat.toList_repr

theorem toList_toString_negSucc (n : Nat) :
    (toString (Int.negSucc n)).toList = '-' :: Nat.toDigits 10 (n + 1) := by
  simp [Int.repr]

/-- The text of an integer begins with a digit or with a minus sign. -/
theorem exists_cons_toString_int (n : Int) :
    ∃ c cs, (toString n).toList = c :: cs ∧ (isDigit c = true ∨ c = '-') := by
  cases n with
  | ofNat n =>
    obtain ⟨d, ds, hds, hd⟩ := exists_cons_toDigits n
    exact ⟨d, ds, (toList_toString_ofNat n).trans hds, .inl hd⟩
  | negSucc n => exact ⟨_, _, toList_toString_negSucc n, .inr rfl⟩

/-- Such a character is none of a list of other characters. -/
theorem notMem_of_isDigit_or_minus {c : Char} (hc : isDigit c = true ∨ c = '-')
    {others : List Char} (h : others.all (fun d => !isDigit d && d != '-') = true) :
    c ∉ others := by
  intro hmem
  have hother := List.all_eq_true.mp h c hmem
  rcases hc with hdigit | rfl
  · rw [hdigit] at hother
    cases hother
  · cases hother

theorem readNumber_cons_of_ne {c : Char} (h : c ≠ '-') (cs : List Char) :
    readNumber (c :: cs) = readUnsigned false (c :: cs) := by
  rw [readNumber]
  rintro rest ⟨⟩
  exact h rfl

theorem readNumber_integer (i : Int64) {rest : List Char} (hrest : Stops rest) :
    readNumber ((toString i.toInt).toList ++ rest) = some (.integer i, rest) := by
  have hlow : -Int.pow 2 63 ≤ i.toInt := i.le_toInt
  have hhigh : i.toInt < Int.pow 2 63 := i.toInt_lt
  have hvalue : (Offer.integer i.toInt).value = .integer i := by
    rw [Offer.value_integer ⟨hlow, hhigh⟩, Int64.ofInt_toInt]
  cases hi : i.toInt with
  | ofNat n =>
    rw [hi] at hhigh hvalue
    have hn : n < Nat.pow 2 64 := by
      have hword : Int.pow 2 63 < ((Nat.pow 2 64 : Nat) : Int) := by decide
      exact Int.ofNat_lt.mp (Int.lt_trans hhigh hword)
    obtain ⟨d, ds, hds, hdigit⟩ := exists_cons_toDigits n
    have hread := readUnsigned_toDigits false hn hrest
    rw [toList_toString_ofNat, hds, List.cons_append]
    rw [hds, List.cons_append] at hread
    rw [readNumber_cons_of_ne, hread]
    · exact congrArg (fun v => some (v, rest)) hvalue
    · rintro rfl
      exact absurd hdigit (by decide)
  | negSucc n =>
    rw [hi] at hlow hvalue
    have hn : n + 1 ≤ Nat.pow 2 63 := by
      have hword : (n : Int) + 1 ≤ Int.pow 2 63 := by
        rw [Int.negSucc_eq] at hlow
        exact Int.neg_le_neg_iff.mp hlow
      exact Int.ofNat_le.mp hword
    have hoffer : wholeOffer true (n + 1) = .integer (Int.negSucc n) := by
      have hsmall : ¬(n + 1 = 0 ∨ Nat.pow 2 63 < n + 1) := by omega
      rw [wholeOffer, if_pos rfl, if_neg hsmall, Int.negSucc_eq]
      rfl
    rw [toList_toString_negSucc, List.cons_append, readNumber,
      readUnsigned_toDigits true (Nat.lt_of_le_of_lt hn (by decide)) hrest, hoffer, hvalue]

end GraphMapping.Json
