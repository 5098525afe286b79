import Mathlib.Logic.Basic
import GraphMapping.Proofs.Dict
import GraphMapping.Proofs.Json.Scalars

/-!
# Values as JSON text and back

JSON has no points in time, and a float may lose its last bit on the way. A value without either is
read back from its text exactly as long as its lists and maps are nested at most as deep as the
reader goes. Such a value is determined by its text, however deep it is: no string is taken for a
number, a date or `null`.

The text of a value begins with a character that is neither a blank nor a closing bracket, so a
reader that looks for either finds the value. What follows it is a comma, a closing bracket or
nothing, so a number ends where its text does.

## Main definitions

* `Value.Exact`: no float and no point in time is in the value.
* `Value.depth`: how deep its lists and maps are nested.

## Main results

* `Json.readValue_write`: the text of a value is read back, whatever may follow it.
* `Json.write_determines`: the same of the whole text, which no other value has.
-/

namespace GraphMapping

namespace Value

/-! ### Exactness and depth -/

mutual

/-- No float and no point in time is in the value. -/
def Exact : Value → Prop
  | float _ => False
  | dateTime _ => False
  | list items => ExactItems items
  | map entries => ExactEntries entries
  | _ => True

/-- Every item is exact. -/
def ExactItems : List Value → Prop
  | [] => True
  | item :: rest => Exact item ∧ ExactItems rest

/-- The value of every entry is exact. -/
def ExactEntries : List (String × Value) → Prop
  | [] => True
  | (_, value) :: rest => Exact value ∧ ExactEntries rest

end

mutual

/-- How deep lists and maps are nested in the value. -/
def depth : Value → Nat
  | list items => depthItems items + 1
  | map entries => depthEntries entries + 1
  | _ => 0

/-- The depth of the deepest item. -/
def depthItems : List Value → Nat
  | [] => 0
  | item :: rest => max (depth item) (depthItems rest)

/-- The depth of the deepest entry. -/
def depthEntries : List (String × Value) → Nat
  | [] => 0
  | (_, value) :: rest => max (depth value) (depthEntries rest)

end

end Value

namespace Json

open Decimal (isDigit)
open Value (depthItems depthEntries)

/-! ### The text of a value -/

/-- The text begins with a character that is neither a blank nor a closing bracket. -/
def Opens (cs : List Char) : Prop :=
  ∃ c rest, cs = c :: rest ∧ c ∉ [' ', '\t', '\n', '\r', ']', '}']

namespace Opens

variable {cs : List Char}

theorem cons {c : Char} (h : c ∉ [' ', '\t', '\n', '\r', ']', '}']) (rest : List Char) :
    Opens (c :: rest) :=
  ⟨c, rest, rfl, h⟩

theorem append (h : Opens cs) (rest : List Char) : Opens (cs ++ rest) := by
  obtain ⟨c, cs, rfl, hc⟩ := h
  exact .cons hc (cs ++ rest)

theorem ne_cons (h : Opens cs) {c : Char} (hc : c ∈ [' ', '\t', '\n', '\r', ']', '}'])
    (rest : List Char) : cs ≠ c :: rest := by
  obtain ⟨d, ds, rfl, hd⟩ := h
  rintro ⟨⟩
  exact hd hc

end Opens

theorem skipSpace_cons {c : Char} (h : c ∉ [' ', '\t', '\n', '\r']) (rest : List Char) :
    skipSpace (c :: rest) = c :: rest := by
  refine List.dropWhile_cons_of_neg ?_
  simpa [isSpace, or_assoc] using h

theorem Opens.skipSpace_eq {cs : List Char} (h : Opens cs) : skipSpace cs = cs := by
  obtain ⟨c, cs, rfl, hc⟩ := h
  exact skipSpace_cons (fun hmem => hc (List.mem_append_left [']', '}'] hmem)) cs

theorem toList_quoted (s : String) :
    (quoted s).toList = '"' :: (s.toList.flatMap escapeChar ++ ['"']) := by
  rw [quoted, String.toList_ofList, quotedChars]

theorem toList_write_null : (write .null).toList = ['n', 'u', 'l', 'l'] := by
  simp [write]

theorem toList_write_bool (b : Bool) : (write (.bool b)).toList =
    if b then ['t', 'r', 'u', 'e'] else ['f', 'a', 'l', 's', 'e'] := by
  cases b <;> simp [write]

theorem toList_write_list (items : List Value) :
    (write (.list items)).toList = '[' :: ((writeItems items).toList ++ [']']) := by
  simp [write]

theorem toList_write_map (entries : List (String × Value)) :
    (write (.map entries)).toList = '{' :: ((writeEntries entries).toList ++ ['}']) := by
  simp [write]

theorem toList_writeItems_cons (item next : Value) (rest : List Value) :
    (writeItems (item :: next :: rest)).toList =
      (write item).toList ++ ',' :: (writeItems (next :: rest)).toList := by
  simp [writeItems]

theorem toList_writeEntries_one (name : String) (value : Value) :
    (writeEntries [(name, value)]).toList =
      (quoted name).toList ++ ':' :: (write value).toList := by
  simp [writeEntries]

theorem toList_writeEntries_cons (name : String) (value : Value) (next : String × Value)
    (rest : List (String × Value)) :
    (writeEntries ((name, value) :: next :: rest)).toList =
      (quoted name).toList ++
        ':' :: ((write value).toList ++ ',' :: (writeEntries (next :: rest)).toList) := by
  simp [writeEntries]

theorem opens_quoted (s : String) : Opens (quoted s).toList := by
  rw [toList_quoted]
  exact .cons (by decide) _

/-- The text of a value begins with neither a blank nor a closing bracket. -/
theorem opens_write {v : Value} (h : v.Exact) : Opens (write v).toList := by
  cases v with
  | null =>
    rw [toList_write_null]
    exact .cons (by decide) _
  | bool b =>
    rw [toList_write_bool]
    cases b with
    | true => exact .cons (by decide) _
    | false => exact .cons (by decide) _
  | integer i =>
    obtain ⟨c, cs, hcs, hc⟩ := exists_cons_toString_int i.toInt
    rw [write]
    exact ⟨c, cs, hcs, notMem_of_isDigit_or_minus hc (by decide)⟩
  | float x => exact h.elim
  | string s => exact opens_quoted s
  | dateTime t => exact h.elim
  | list items =>
    rw [toList_write_list]
    exact .cons (by decide) _
  | map entries =>
    rw [toList_write_map]
    exact .cons (by decide) _

theorem opens_writeItems {item : Value} (h : item.Exact) (rest : List Value) :
    Opens (writeItems (item :: rest)).toList := by
  cases rest with
  | nil => exact opens_write h
  | cons next rest =>
    rw [toList_writeItems_cons]
    exact (opens_write h).append _

theorem opens_writeEntries (entry : String × Value) (rest : List (String × Value)) :
    Opens (writeEntries (entry :: rest)).toList := by
  cases rest with
  | nil =>
    rw [toList_writeEntries_one]
    exact (opens_quoted entry.1).append _
  | cons next rest =>
    rw [toList_writeEntries_cons]
    exact (opens_quoted entry.1).append _

/-- All items but one have a comma in front. -/
theorem length_le_writeItems : ∀ items : List Value,
    items.length ≤ (writeItems items).toList.length + 1
  | [] => Nat.zero_le _
  | [_] => Nat.le_add_left ..
  | item :: next :: rest => by
    have hrest := length_le_writeItems (next :: rest)
    simp only [toList_writeItems_cons, List.length_append, List.length_cons] at hrest ⊢
    omega

theorem length_le_writeEntries : ∀ entries : List (String × Value),
    entries.length ≤ (writeEntries entries).toList.length + 1
  | [] => Nat.zero_le _
  | [_] => Nat.le_add_left ..
  | (name, value) :: next :: rest => by
    have hrest := length_le_writeEntries (next :: rest)
    simp only [toList_writeEntries_cons, List.length_append, List.length_cons] at hrest ⊢
    omega

/-! ### Reading by the first character -/

section Dispatch

variable {depth : Nat} {cs rest : List Char}

theorem readValue_quote : readValue depth ('"' :: cs) =
    (readString cs).map fun (text, rest) => (.string text, rest) := by
  rw [readValue, skipSpace_cons (by decide)]
  simp only [Offer.value_text]

/-- A text that begins with a digit or a minus sign is read as a number. -/
theorem readValue_number {c : Char} (hc : isDigit c = true ∨ c = '-') :
    readValue depth (c :: cs) = readNumber (c :: cs) := by
  have hspace : c ∉ [' ', '\t', '\n', '\r'] := notMem_of_isDigit_or_minus hc (by decide)
  have hother : c ∉ ['n', 't', 'f', '"', '[', '{'] := notMem_of_isDigit_or_minus hc (by decide)
  simp only [List.mem_cons, List.not_mem_nil, or_false, not_or] at hother
  obtain ⟨hn, ht, hf, hquote, hbracket, hbrace⟩ := hother
  rw [readValue, skipSpace_cons hspace]
  split
  case h_1 heq => exact absurd (List.cons.inj heq).1 hn
  case h_2 heq => exact absurd (List.cons.inj heq).1 ht
  case h_3 heq => exact absurd (List.cons.inj heq).1 hf
  case h_4 heq => exact absurd (List.cons.inj heq).1 hquote
  case h_5 heq => exact absurd (List.cons.inj heq).1 hbracket
  case h_6 heq => exact absurd (List.cons.inj heq).1 hbrace
  case h_7 => rfl

theorem readValue_bracket (h : Opens cs) : readValue (depth + 1) ('[' :: cs) =
    (readItems (readValue depth) (cs.length + 1) cs).map fun (items, rest) =>
      (.list items, rest) := by
  rw [readValue, skipSpace_cons (by decide)]
  simp only [h.skipSpace_eq, Offer.value_sequence]
  split
  case h_1 rest => exact absurd rfl (h.ne_cons (by decide) rest)
  case h_2 => rfl

theorem readValue_brace (h : Opens cs) : readValue (depth + 1) ('{' :: cs) =
    (readEntries (readValue depth) (cs.length + 1) cs).map fun (entries, rest) =>
      (.ofPairs entries, rest) := by
  rw [readValue, skipSpace_cons (by decide)]
  simp only [h.skipSpace_eq, Offer.value_pairs]
  split
  case h_1 rest => exact absurd rfl (h.ne_cons (by decide) rest)
  case h_2 => rfl

end Dispatch

/-! ### Reading items and entries -/

section Elements

variable {item : List Char → Option (Value × List Char)} {fuel : Nat} {cs rest rest' : List Char}
  {value : Value} {p q : Prop} [Decidable p] [Decidable q]

/-- Two readings, one after the other, succeed under both conditions. -/
theorem ite_map_ite {α β : Type} (f : α → β) (x : α) :
    (if p then (if q then some x else none).map f else none) =
      if p ∧ q then some (f x) else none := by
  rw [ite_and]
  split
  · split <;> rfl
  · rfl

theorem readItems_last (h : item cs = if p then some (value, ']' :: rest) else none) :
    readItems item (fuel + 1) cs = if p then some ([value], rest) else none := by
  rw [readItems, h]
  split <;> rfl

theorem readItems_next (h : item cs = if p then some (value, ',' :: rest) else none)
    {more : List Value}
    (hmore : readItems item fuel rest = if q then some (more, rest') else none) :
    readItems item (fuel + 1) cs = if p ∧ q then some (value :: more, rest') else none := by
  have hstep : readItems item (fuel + 1) cs = if p then
      (readItems item fuel rest).map fun (values, rest) => (value :: values, rest) else none := by
    rw [readItems, h, Option.map_eq_bind]
    split <;> rfl
  rw [hstep, hmore, ite_map_ite]

/-- The name of an entry and the colon behind it are passed. -/
theorem readEntries_succ (name : String) :
    readEntries item (fuel + 1) ((quoted name).toList ++ ':' :: cs) = (item cs).bind fun read =>
      match skipSpace read.2 with
      | '}' :: rest => some ([(name, read.1)], rest)
      | ',' :: rest =>
        (readEntries item fuel rest).map fun (entries, rest) => ((name, read.1) :: entries, rest)
      | _ => none := by
  have hname := readString_quoted name (':' :: cs)
  have hcolon : skipSpace (':' :: cs) = ':' :: cs := skipSpace_cons (by decide) cs
  rw [readEntries, toList_quoted, List.cons_append, List.append_assoc, List.singleton_append,
    skipSpace_cons (by decide)]
  simp only [hname, hcolon, Option.bind_eq_bind, Option.bind_some, Option.map_eq_bind]
  rfl

theorem readEntries_last (name : String)
    (h : item cs = if p then some (value, '}' :: rest) else none) :
    readEntries item (fuel + 1) ((quoted name).toList ++ ':' :: cs) =
      if p then some ([(name, value)], rest) else none := by
  rw [readEntries_succ, h]
  split <;> rfl

theorem readEntries_next (name : String)
    (h : item cs = if p then some (value, ',' :: rest) else none) {more : List (String × Value)}
    (hmore : readEntries item fuel rest = if q then some (more, rest') else none) :
    readEntries item (fuel + 1) ((quoted name).toList ++ ':' :: cs) =
      if p ∧ q then some ((name, value) :: more, rest') else none := by
  have hstep : readEntries item (fuel + 1) ((quoted name).toList ++ ':' :: cs) = if p then
      (readEntries item fuel rest).map fun (entries, rest) => ((name, value) :: entries, rest)
        else none := by
    rw [readEntries_succ, h]
    split <;> rfl
  rw [hstep, hmore, ite_map_ite]

end Elements

/-! ### Reading back what is written -/

theorem readValue_null (depth : Nat) (rest : List Char) :
    readValue depth ((write .null).toList ++ rest) = some (.null, rest) := by
  rw [toList_write_null, List.cons_append, readValue, skipSpace_cons (by decide)]
  simp only [List.cons_append, List.nil_append, Offer.value_unit]

theorem readValue_bool (b : Bool) (depth : Nat) (rest : List Char) :
    readValue depth ((write (.bool b)).toList ++ rest) = some (.bool b, rest) := by
  rw [toList_write_bool]
  cases b with
  | true =>
    rw [if_pos rfl, List.cons_append, readValue, skipSpace_cons (by decide)]
    simp only [List.cons_append, List.nil_append, Offer.value_bool]
  | false =>
    rw [if_neg (by decide), List.cons_append, readValue, skipSpace_cons (by decide)]
    simp only [List.cons_append, List.nil_append, Offer.value_bool]

theorem readValue_integer (i : Int64) {depth : Nat} {rest : List Char} (hrest : Stops rest) :
    readValue depth ((write (.integer i)).toList ++ rest) = some (.integer i, rest) := by
  obtain ⟨c, cs, hcs, hc⟩ := exists_cons_toString_int i.toInt
  have hread := readNumber_integer i hrest
  rw [hcs, List.cons_append] at hread
  rw [write, hcs, List.cons_append, readValue_number hc, hread]

theorem readValue_string (s : String) (depth : Nat) (rest : List Char) :
    readValue depth ((write (.string s)).toList ++ rest) = some (.string s, rest) := by
  rw [write, toList_quoted, List.cons_append, List.append_assoc, readValue_quote,
    List.singleton_append, readString_quoted]
  rfl

theorem readValue_list {items : List Value} (hexact : Value.ExactItems items) {depth : Nat}
    {rest : List Char}
    (h : ∀ {limit fuel : Nat}, items ≠ [] → items.length ≤ fuel →
      readItems (readValue limit) fuel ((writeItems items).toList ++ ']' :: rest) =
        if depthItems items ≤ limit then some (items, rest) else none) :
    readValue depth ((write (.list items)).toList ++ rest) =
      if (Value.list items).depth ≤ depth then some (.list items, rest) else none := by
  rw [toList_write_list, List.cons_append, List.append_assoc, List.singleton_append, Value.depth]
  cases depth with
  | zero => rfl
  | succ depth =>
    cases items with
    | nil => rfl
    | cons item more =>
      have hopens := (opens_writeItems hexact.1 more).append (']' :: rest)
      have hlength : (item :: more).length ≤
          ((writeItems (item :: more)).toList ++ ']' :: rest).length + 1 := by
        have hcommas := length_le_writeItems (item :: more)
        rw [List.length_append]
        omega
      rw [readValue_bracket hopens, h nofun hlength]
      simp only [Nat.add_le_add_iff_right]
      split <;> rfl

theorem readValue_map {entries : List (String × Value)} (hsorted : Entries.Sorted entries)
    {depth : Nat} {rest : List Char}
    (h : ∀ {limit fuel : Nat}, entries ≠ [] → entries.length ≤ fuel →
      readEntries (readValue limit) fuel ((writeEntries entries).toList ++ '}' :: rest) =
        if depthEntries entries ≤ limit then some (entries, rest) else none) :
    readValue depth ((write (.map entries)).toList ++ rest) =
      if (Value.map entries).depth ≤ depth then some (.map entries, rest) else none := by
  have hmap : Value.ofPairs entries = .map entries :=
    congrArg Value.map (Dict.ofPairs_of_perm (.refl _) hsorted)
  rw [toList_write_map, List.cons_append, List.append_assoc, List.singleton_append, Value.depth]
  cases depth with
  | zero => rfl
  | succ depth =>
    cases entries with
    | nil => rfl
    | cons entry more =>
      have hopens := (opens_writeEntries entry more).append ('}' :: rest)
      have hlength : (entry :: more).length ≤
          ((writeEntries (entry :: more)).toList ++ '}' :: rest).length + 1 := by
        have hcommas := length_le_writeEntries (entry :: more)
        rw [List.length_append]
        omega
      rw [readValue_brace hopens, h nofun hlength]
      simp only [Nat.add_le_add_iff_right]
      split
      · exact congrArg (fun v => some (v, rest)) hmap
      · rfl

mutual

/-- The text of a value is read back, whatever may follow it, exactly as long as the value is nested
no deeper than is allowed. -/
theorem readValue_write : ∀ {v : Value} {depth : Nat} {rest : List Char}, v.Canonical → v.Exact →
    Stops rest →
      readValue depth ((write v).toList ++ rest) = if v.depth ≤ depth then some (v, rest) else none
  | .null, depth, rest, _, _, _ =>
    (readValue_null depth rest).trans (if_pos (Nat.zero_le depth)).symm
  | .bool b, depth, rest, _, _, _ =>
    (readValue_bool b depth rest).trans (if_pos (Nat.zero_le depth)).symm
  | .integer i, depth, _, _, _, hrest =>
    (readValue_integer i hrest).trans (if_pos (Nat.zero_le depth)).symm
  | .string s, depth, rest, _, _, _ =>
    (readValue_string s depth rest).trans (if_pos (Nat.zero_le depth)).symm
  | .float _, _, _, _, hexact, _ => hexact.elim
  | .dateTime _, _, _, _, hexact, _ => hexact.elim
  | .list _, _, _, hv, hexact, _ => readValue_list hexact (readItems_writeItems hv hexact)
  | .map _, _, _, hv, hexact, _ => readValue_map hv.1 (readEntries_writeEntries hv.2 hexact)

theorem readItems_writeItems : ∀ {items : List Value} {depth fuel : Nat} {rest : List Char},
    Value.CanonicalItems items → Value.ExactItems items → items ≠ [] → items.length ≤ fuel →
      readItems (readValue depth) fuel ((writeItems items).toList ++ ']' :: rest) =
        if depthItems items ≤ depth then some (items, rest) else none
  | [], _, _, _, _, _, hne, _ => absurd rfl hne
  | [item], _, fuel + 1, rest, hv, hexact, _, _ => by
    rw [writeItems, depthItems, depthItems, Nat.max_zero]
    exact readItems_last (readValue_write hv.1 hexact.1 (.bracket rest))
  | item :: next :: more, _, fuel + 1, rest, hv, hexact, _, hfuel => by
    rw [toList_writeItems_cons, List.append_assoc, List.cons_append, depthItems]
    simp only [Nat.max_le]
    have hlength : (next :: more).length ≤ fuel := Nat.le_of_succ_le_succ hfuel
    exact readItems_next (readValue_write hv.1 hexact.1 (.comma _))
      (readItems_writeItems hv.2 hexact.2 nofun hlength)

theorem readEntries_writeEntries : ∀ {entries : List (String × Value)} {depth fuel : Nat}
    {rest : List Char}, Value.CanonicalEntries entries → Value.ExactEntries entries →
      entries ≠ [] → entries.length ≤ fuel →
        readEntries (readValue depth) fuel ((writeEntries entries).toList ++ '}' :: rest) =
          if depthEntries entries ≤ depth then some (entries, rest) else none
  | [], _, _, _, _, _, hne, _ => absurd rfl hne
  | [(name, value)], _, fuel + 1, rest, hv, hexact, _, _ => by
    rw [toList_writeEntries_one, List.append_assoc, List.cons_append, depthEntries, depthEntries,
      Nat.max_zero]
    exact readEntries_last name (readValue_write hv.1 hexact.1 (.brace rest))
  | (name, value) :: next :: more, _, fuel + 1, rest, hv, hexact, _, hfuel => by
    rw [toList_writeEntries_cons, List.append_assoc, List.cons_append, List.append_assoc,
      List.cons_append, depthEntries]
    simp only [Nat.max_le]
    have hlength : (next :: more).length ≤ fuel := Nat.le_of_succ_le_succ hfuel
    exact readEntries_next name (readValue_write hv.1 hexact.1 (.comma _))
      (readEntries_writeEntries hv.2 hexact.2 nofun hlength)

end

theorem readValue_toList_write {v : Value} (hv : v.Canonical) (hexact : v.Exact) (depth : Nat) :
    readValue depth (write v).toList = if v.depth ≤ depth then some (v, []) else none := by
  rw [← readValue_write hv hexact .nil, List.append_nil]

/-- **The text of a value determines it.** A value without floats and points in time is read back
from its text when its lists and maps are nested at most 127 deep, and refused when they are nested
deeper. However deep they are, no other such value has the same text. -/
theorem write_determines {v : Value} (hv : v.Canonical) (hexact : v.Exact) :
    (v.depth ≤ 127 → parse? (write v) = some v) ∧
      (127 < v.depth → parse? (write v) = none) ∧
      ∀ w : Value, w.Canonical → w.Exact → write w = write v → w = v := by
  have hread := readValue_toList_write hv hexact
  refine ⟨fun hdepth => ?_, fun hdepth => ?_, fun w hw hwexact htext => ?_⟩
  · rw [parse?, hread, maxDepth, if_pos hdepth]
    rfl
  · rw [parse?, hread, maxDepth, if_neg (Nat.not_le.mpr hdepth)]
    rfl
  · -- a reader that goes deep enough for both reads either from the common text
    have hboth := readValue_toList_write hw hwexact (max w.depth v.depth)
    rw [htext, hread, if_pos (Nat.le_max_left ..), if_pos (Nat.le_max_right ..)] at hboth
    exact (Prod.mk.inj (Option.some.inj hboth)).1.symm

/-- The least and the greatest integer, and names and strings that look like something else or have
to be escaped. -/
def lookalikes : Value :=
  .map [("", .list [.integer Int64.minValue, .integer Int64.maxValue, .list [], .null]),
    ("\"\\\n\x01", .string "null"),
    ("1", .string "1"),
    ("2024-01-01T00:00:00Z", .string "2024-01-01T00:00:00Z")]

theorem write_determines_lookalikes :
    lookalikes.Canonical ∧ lookalikes.Exact ∧ lookalikes.depth = 3 ∧
      write lookalikes = "\x7b\"\":[-9223372036854775808,9223372036854775807,[],null]," ++
        "\"\\\"\\\\\\n\\u0001\":\"null\",\"1\":\"1\"," ++
        "\"2024-01-01T00:00:00Z\":\"2024-01-01T00:00:00Z\"\x7d" ∧
      parse? (write lookalikes) = some lookalikes := by
  have hcanonical : lookalikes.Canonical :=
    ⟨by decide, ⟨trivial, trivial, trivial, trivial, trivial⟩, trivial, trivial, trivial, trivial⟩
  have hexact : lookalikes.Exact :=
    ⟨⟨trivial, trivial, trivial, trivial, trivial⟩, trivial, trivial, trivial, trivial⟩
  have hdepth : lookalikes.depth = 3 := rfl
  refine ⟨hcanonical, hexact, hdepth, ?_, (write_determines hcanonical hexact).1 ?_⟩
  · decide
  · rw [hdepth]
    decide

end Json

end GraphMapping
