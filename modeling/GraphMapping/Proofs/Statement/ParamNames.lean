import Mathlib.Data.List.Basic
import GraphMapping.Proofs.Statement.Variables

/-!
# Parameter names

A parameter name is a variable, a field and a number with underscores between them, all in lower
case. The field may contain anything, but what is no ASCII letter or digit of it becomes an
underscore, and neither a variable nor a number has an underscore. So the variable is what stands
before the first underscore and the number what stands after the last, and lower-casing, which only
sees ASCII here, changes neither.

## Main definitions

* `Names.paramName`: the parameter name of a variable, a field and a number.
* `Names.isParamChar`, `Names.IsParam`: the characters that parameter names consist of.
* `Names.HandsOutParams`: how many parameter names of a type were handed out.

## Main results

* `Text.lowercase_of_ascii`: lower-casing is done character by character on ASCII.
* `Names.isParam_paramName`: parameter names are plain whatever the field contains.
* `Names.paramName_inj`: a parameter name tells its variable and its number.
-/

namespace GraphMapping

/-! ### Lower case in ASCII -/

namespace Text

theorem lowercaseAfter_of_ascii {cs : List Char} (h : ∀ c ∈ cs, c.toNat < 128)
    (before : List Char) : lowercaseAfter before cs = cs.map Char.toLower := by
  induction cs generalizing before with
  | nil => rfl
  | cons c rest ih =>
    have hc : c.toNat < 128 := h c (List.mem_cons_self ..)
    have hsigma : c ≠ 'Σ' := by
      rintro rfl
      exact absurd hc (by decide)
    have hrest := ih (fun d hd => h d (List.mem_cons_of_mem _ hd)) (c :: before)
    rw [lowercaseAfter, if_neg hsigma, lowercaseChar, if_pos hc, hrest]
    rfl

/-- Lower-casing is done character by character on ASCII. Elsewhere a character may become two, and
a capital sigma depends on its neighbours. -/
theorem lowercase_of_ascii {s : String} (h : ∀ c ∈ s.toList, c.toNat < 128) :
    (lowercase s).toList = s.toList.map Char.toLower := by
  rw [lowercase, String.toList_ofList, lowercaseAfter_of_ascii h]

end Text

/-! ### Classes of characters -/

theorem isUpper_iff_toNat {c : Char} : c.isUpper = true ↔ 65 ≤ c.toNat ∧ c.toNat ≤ 90 := by
  have hclass : c.isUpper = decide (c.val ≥ 'A'.val ∧ c.val ≤ 'Z'.val) := rfl
  rw [hclass, decide_eq_true_iff, ge_iff_le, UInt32.le_iff_toNat_le, UInt32.le_iff_toNat_le]
  rfl

theorem isLower_iff_toNat {c : Char} : c.isLower = true ↔ 97 ≤ c.toNat ∧ c.toNat ≤ 122 := by
  have hclass : c.isLower = (decide (c.val ≥ 'a'.val) && decide (c.val ≤ 'z'.val)) := rfl
  rw [hclass, Bool.and_eq_true, decide_eq_true_iff, decide_eq_true_iff, ge_iff_le,
    UInt32.le_iff_toNat_le, UInt32.le_iff_toNat_le]
  rfl

theorem isAlphanum_iff {c : Char} :
    c.isAlphanum = true ↔ (c.isUpper = true ∨ c.isLower = true) ∨ c.isDigit = true := by
  have hclass : c.isAlphanum = (c.isUpper || c.isLower || c.isDigit) := rfl
  rw [hclass, Bool.or_eq_true, Bool.or_eq_true]

theorem toNat_lt_of_isAlphanum {c : Char} (h : c.isAlphanum = true) : c.toNat < 128 := by
  rw [isAlphanum_iff, isUpper_iff_toNat, isLower_iff_toNat, Char.isDigit_iff_toNat] at h
  have hdigits : '9'.toNat = 57 := rfl
  omega

theorem toLower_of_not_isUpper {c : Char} (h : c.isUpper = false) : c.toLower = c :=
  dif_neg fun hrange => absurd (decide_eq_true hrange) (Bool.eq_false_iff.mp h)

theorem isLower_toLower_of_isAlpha {c : Char} (h : c.isAlpha = true) : c.toLower.isLower = true := by
  have hclass : c.isAlpha = (c.isUpper || c.isLower) := rfl
  cases hupper : c.isUpper with
  | true =>
    have hrange : c.val ≥ 'A'.val ∧ c.val ≤ 'Z'.val := of_decide_eq_true hupper
    have hlower : c.toLower.val = c.val + 32 := congrArg Char.val (dif_pos hrange)
    have hshift : c.toLower.toNat = c.toNat + 32 := by
      rw [← Char.toNat_val, hlower, UInt32.toNat_add, Char.toNat_val]
      have hle := (isUpper_iff_toNat.mp hupper).2
      have hconstant : UInt32.toNat 32 = 32 := rfl
      omega
    rw [isUpper_iff_toNat] at hupper
    rw [isLower_iff_toNat]
    omega
  | false =>
    rw [toLower_of_not_isUpper hupper]
    rwa [hclass, hupper, Bool.false_or] at h

/-! ### The parts of a name -/

/-- What stands before the first separator and after it can be told from the whole. Variables have
no underscore in them, so a parameter name tells its variable by the first one. -/
theorem append_separator_inj {a : Char} {xs ys us vs : List Char} (hx : a ∉ xs) (hy : a ∉ ys)
    (h : xs ++ a :: us = ys ++ a :: vs) : xs = ys ∧ us = vs := by
  induction xs generalizing ys with
  | nil =>
    cases ys with
    | nil => exact ⟨rfl, (List.cons.inj h).2⟩
    | cons y ys => exact absurd (List.cons.inj h).1 fun heq => hy (heq ▸ List.mem_cons_self ..)
  | cons x xs ih =>
    cases ys with
    | nil => exact absurd (List.cons.inj h).1.symm fun heq => hx (heq ▸ List.mem_cons_self ..)
    | cons y ys =>
      obtain ⟨rfl, hrest⟩ := List.cons.inj h
      obtain ⟨rfl, rfl⟩ := ih (fun hmem => hx (List.mem_cons_of_mem _ hmem))
        (fun hmem => hy (List.mem_cons_of_mem _ hmem)) hrest
      exact ⟨rfl, rfl⟩

/-- What stands after the last separator can be told from the whole. The field in the middle may
contain more of them, but the number at the end does not. -/
theorem append_separator_inj_right {a : Char} {xs ys us vs : List Char} (hu : a ∉ us)
    (hv : a ∉ vs) (h : xs ++ a :: us = ys ++ a :: vs) : us = vs := by
  have hreverse : us.reverse ++ a :: xs.reverse = vs.reverse ++ a :: ys.reverse := by
    simpa using congrArg List.reverse h
  have hback := (append_separator_inj (by simpa using hu) (by simpa using hv) hreverse).1
  exact List.reverse_injective hback

/-! ### Names -/

namespace Names

/-- The parameter name of a variable, a field and a number. -/
def paramName (name field : String) (n : Nat) : String :=
  Text.lowercase (name ++ "_" ++ normalizeField field ++ "_" ++ toString n)

/-- How many parameter names have been handed out for a type name. -/
def paramCount (names : Names) (typeName : String) : Nat := (names.params.get? typeName).getD 0

theorem param_eq (names : Names) (name typeName field : String) :
    names.param name typeName field =
      (paramName name field (names.paramCount typeName),
        { names with params := names.params.insert typeName (names.paramCount typeName + 1) }) :=
  rfl

/-- Parameter names of the type were handed out, this many, and nothing else. -/
structure HandsOutParams (names : Names) (typeName : String) (n : Nat) (names' : Names) : Prop where
  count : ∀ kind, names'.count kind = names.count kind
  paramCount : ∀ other,
    names'.paramCount other = names.paramCount other + if other = typeName then n else 0

theorem HandsOutParams.none (names : Names) (typeName : String) :
    names.HandsOutParams typeName 0 names :=
  ⟨fun _ => rfl, fun _ => by simp⟩

theorem handsOutParams_param (names : Names) (name typeName field : String) :
    names.HandsOutParams typeName 1 (names.param name typeName field).2 := by
  refine ⟨count_param names name typeName field, fun other => ?_⟩
  by_cases hother : other = typeName
  · simp [hother, param_eq, paramCount]
  · simp [hother, param_eq, paramCount, Dict.get?_insert_of_ne]

namespace HandsOutParams

variable {names names' names'' : Names} {typeName : String} {n n' : Nat}

theorem trans (h : names.HandsOutParams typeName n names')
    (h' : names'.HandsOutParams typeName n' names'') :
    names.HandsOutParams typeName (n + n') names'' := by
  refine ⟨fun kind => (h'.count kind).trans (h.count kind), fun other => ?_⟩
  rw [h'.paramCount, h.paramCount]
  split <;> omega

theorem le (h : names.HandsOutParams typeName n names') (other : String) :
    names.paramCount other ≤ names'.paramCount other := by
  rw [h.paramCount]
  omega

theorem paramCount_self (h : names.HandsOutParams typeName n names') :
    names'.paramCount typeName = names.paramCount typeName + n := by
  rw [h.paramCount, if_pos rfl]

end HandsOutParams

/-- Variables are counted apart from parameter names. -/
theorem paramCount_allocate (names : Names) (kind : EntityKind) (typeName : String) :
    (names.allocate kind).2.paramCount typeName = names.paramCount typeName := by
  cases kind <;> rfl

theorem paramCount_define {names names' : Names} {e bound : Entity} {name : String}
    (h : names.define e = (name, bound, names')) (typeName : String) :
    names'.paramCount typeName = names.paramCount typeName := by
  rcases define_cases h with ⟨-, rfl⟩ | ⟨-, -, rfl⟩
  · rfl
  · exact paramCount_allocate names e.kind typeName

theorem toNat_lt_of_mem_normalizeField {field : String} {c : Char}
    (h : c ∈ (normalizeField field).toList) : c.toNat < 128 := by
  rw [normalizeField, String.toList_ofList] at h
  obtain ⟨d, -, rfl⟩ := List.mem_map.mp h
  split
  · rename_i halnum
    exact toNat_lt_of_isAlphanum halnum
  · decide

/-- Parameter names consist of lower-case letters, digits and underscores. -/
def isParamChar (c : Char) : Bool := c.isLower || c.isDigit || c = '_'

/-- The name consists of characters of parameter names. -/
def IsParam (param : String) : Prop := ∀ c ∈ param.toList, isParamChar c = true

theorem isParamChar_of_isDigit {c : Char} (h : c.isDigit = true) : isParamChar c = true := by
  simp [isParamChar, h]

theorem isParamChar_of_mem_toDigits {n : Nat} {c : Char} (h : c ∈ Nat.toDigits 10 n) :
    isParamChar c = true :=
  isParamChar_of_isDigit (Nat.isDigit_of_mem_toDigits (by decide) (by decide) h)

theorem toNat_lt_of_isParamChar {c : Char} (h : isParamChar c = true) : c.toNat < 128 := by
  simp only [isParamChar, Bool.or_eq_true, decide_eq_true_eq] at h
  rcases h with (h | h) | rfl
  · exact toNat_lt_of_isAlphanum (isAlphanum_iff.mpr (.inl (.inr h)))
  · exact toNat_lt_of_isAlphanum (isAlphanum_iff.mpr (.inr h))
  · decide

theorem toLower_of_isParamChar {c : Char} (h : isParamChar c = true) : c.toLower = c := by
  refine toLower_of_not_isUpper (Bool.eq_false_iff.mpr fun hupper => ?_)
  simp only [isParamChar, Bool.or_eq_true, decide_eq_true_eq] at h
  rcases h with (h | h) | rfl
  · rw [isLower_iff_toNat] at h
    rw [isUpper_iff_toNat] at hupper
    omega
  · rw [Char.isDigit_iff_toNat] at h
    rw [isUpper_iff_toNat] at hupper
    have hdigits : '9'.toNat = 57 := rfl
    omega
  · exact absurd hupper (by decide)

theorem isParamChar_of_mem_normalizeField {field : String} {c : Char}
    (h : c ∈ (normalizeField field).toList.map Char.toLower) : isParamChar c = true := by
  rw [normalizeField, String.toList_ofList, List.map_map] at h
  obtain ⟨d, -, rfl⟩ := List.mem_map.mp h
  rw [Function.comp_apply]
  split
  · rename_i halnum
    rw [Char.isAlphanum, Bool.or_eq_true] at halnum
    rcases halnum with halpha | hdigit
    · simp [isParamChar, isLower_toLower_of_isAlpha halpha]
    · have hchar := isParamChar_of_isDigit hdigit
      rwa [toLower_of_isParamChar hchar]
  · decide

/-- What a parameter name may begin with: something plain without an underscore. -/
def IsStem (name : String) : Prop := ∀ c ∈ name.toList, isParamChar c = true ∧ c ≠ '_'

instance (param : String) : Decidable (IsParam param) :=
  List.decidableBAll (isParamChar · = true) param.toList

instance (name : String) : Decidable (IsStem name) :=
  List.decidableBAll (fun c => isParamChar c = true ∧ c ≠ '_') name.toList

theorem isStem_variableName (kind : EntityKind) (i : Nat) : IsStem (variableName kind i) := by
  intro c hc
  rw [toList_variableName] at hc
  rcases List.mem_cons.mp hc with rfl | hc
  · cases kind <;> decide
  · refine ⟨isParamChar_of_mem_toDigits hc, ?_⟩
    rintro rfl
    exact Nat.underscore_not_in_toDigits hc

theorem Issued.isStem {names : Names} {name : String} (h : names.Issued name) : IsStem name := by
  obtain ⟨kind, i, -, rfl⟩ := h
  exact isStem_variableName kind i

section Stem

variable {name name' : String} {field field' : String} {n n' : Nat}

theorem toList_paramName (h : IsStem name) :
    (paramName name field n).toList =
      name.toList ++
        '_' :: ((normalizeField field).toList.map Char.toLower ++ '_' :: Nat.toDigits 10 n) := by
  have htext : (name ++ "_" ++ normalizeField field ++ "_" ++ toString n).toList =
      name.toList ++ '_' :: ((normalizeField field).toList ++ '_' :: Nat.toDigits 10 n) := by
    simp
  have hascii : ∀ c ∈ name.toList ++
      '_' :: ((normalizeField field).toList ++ '_' :: Nat.toDigits 10 n), c.toNat < 128 := by
    intro c hc
    simp only [List.mem_cons, List.mem_append] at hc
    rcases hc with hc | rfl | hc | rfl | hc
    · exact toNat_lt_of_isParamChar (h c hc).1
    · decide
    · exact toNat_lt_of_mem_normalizeField hc
    · decide
    · exact toNat_lt_of_isParamChar (isParamChar_of_mem_toDigits hc)
  have hlower : ∀ cs : List Char, (∀ c ∈ cs, isParamChar c = true) → cs.map Char.toLower = cs := by
    intro cs hcs
    refine (List.map_congr_left fun c hc => ?_).trans (List.map_id _)
    exact toLower_of_isParamChar (hcs c hc)
  rw [paramName, Text.lowercase_of_ascii (htext ▸ hascii), htext, List.map_append, List.map_cons,
    List.map_append, List.map_cons, hlower name.toList fun c hc => (h c hc).1,
    hlower (Nat.toDigits 10 n) fun c hc => isParamChar_of_mem_toDigits hc]
  rfl

/-- Parameter names are plain, whatever the field contains. A field may be any text; what is neither
a letter nor a digit becomes an underscore, so that a placeholder ends where the name does. -/
theorem isParam_paramName (h : IsStem name) : IsParam (paramName name field n) := by
  intro c hc
  rw [toList_paramName h] at hc
  simp only [List.mem_cons, List.mem_append] at hc
  rcases hc with hc | rfl | hc | rfl | hc
  · exact (h c hc).1
  · decide
  · exact isParamChar_of_mem_normalizeField hc
  · decide
  · exact isParamChar_of_mem_toDigits hc

/-- A name without an underscore is no parameter name. -/
theorem underscore_mem_paramName (h : IsStem name) : '_' ∈ (paramName name field n).toList := by
  rw [toList_paramName h]
  exact List.mem_append_right _ (List.mem_cons_self ..)

/-- A parameter name tells its variable and its number. It need not tell its field, since different
fields can be spelled alike; their numbers keep them apart. -/
theorem paramName_inj (h : IsStem name) (h' : IsStem name')
    (heq : paramName name field n = paramName name' field' n') : name = name' ∧ n = n' := by
  have hlist := congrArg String.toList heq
  rw [toList_paramName h, toList_paramName h'] at hlist
  have hdigits : ∀ k, '_' ∉ Nat.toDigits 10 k := fun k => Nat.underscore_not_in_toDigits
  obtain ⟨hname, hrest⟩ :=
    append_separator_inj (fun hmem => (h _ hmem).2 rfl) (fun hmem => (h' _ hmem).2 rfl) hlist
  have hnumber := append_separator_inj_right (hdigits n) (hdigits n') hrest
  exact ⟨String.toList_injective hname, toDigits_inj hnumber⟩

end Stem

/-- Parameters of different variables have different names. -/
theorem paramName_ne_of_issued {names names' : Names} {name name' : String}
    (h : names.Issued name) (h' : names'.Issued name') (hne : name ≠ name')
    (field field' : String) (n n' : Nat) : paramName name field n ≠ paramName name' field' n' := by
  exact fun heq => hne (paramName_inj h.isStem h'.isStem heq).1

/-- So have parameters with different numbers. -/
theorem paramName_ne_of_number {name : String} (h : IsStem name) {n n' : Nat} (hne : n ≠ n')
    (field field' : String) : paramName name field n ≠ paramName name field' n' :=
  fun heq => hne (paramName_inj h h heq).2

end Names

end GraphMapping
