import GraphMapping.Proofs.Text.Runs
import GraphMapping.Statement.Identifier

/-!
# Quoting is undone by reading

Query text is read back here as the database reads it. An identifier is a quotation if it begins with
a backtick, and otherwise the longest run of letters, digits and underscores. A quotation goes up to
the first backtick that is not doubled.

What is quoted can therefore be read back, whatever it contains, as long as the text behind it does
not go on with a name character or a backtick. The same holds of labels one behind the other. So no
name ends its own quotation, and different names are written differently.

## Main definitions

* `Identifier.read?`: the identifier at the front of a text.
* `Identifier.readLabels?`: the labels at the front of a text.
* `Identifier.Ends`: the text does not go on with the identifier in front of it.

## Main results

* `Identifier.read?_quote`: an identifier is read back.
* `Identifier.readLabels?_labelFragment`: labels are read back.
* `Identifier.quoted_read_back`: both, and that names are told apart.
-/

namespace GraphMapping.Identifier

/-! ### The reader -/

/-- The inside of a quotation up to the first backtick that is not doubled, with doubled ones made
single, and what follows that backtick. There is nothing to read if the quotation is not closed. -/
def readQuoted? : List Char → Option (List Char × List Char)
  | '`' :: '`' :: rest => (readQuoted? rest).map fun (name, rest) => ('`' :: name, rest)
  | '`' :: rest => some ([], rest)
  | c :: rest => (readQuoted? rest).map fun (name, rest) => (c :: name, rest)
  | [] => none

/-- The identifier at the front of a text, and what follows it. -/
def readChars? : List Char → Option (List Char × List Char)
  | '`' :: rest => readQuoted? rest
  | cs => some (cs.takeWhile isPart, cs.dropWhile isPart)

/-- The identifier at the front of a text, and what follows it. -/
def read? (text : String) : Option (String × String) :=
  (readChars? text.toList).map fun (name, rest) => (String.ofList name, String.ofList rest)

theorem length_readQuoted? {cs name rest : List Char} (h : readQuoted? cs = some (name, rest)) :
    rest.length ≤ cs.length := by
  fun_induction readQuoted? cs generalizing name rest with
  | case1 cs ih =>
    obtain ⟨⟨inner, rest'⟩, hread, heq⟩ := Option.map_eq_some_iff.mp h
    obtain ⟨-, rfl⟩ := Prod.mk.inj heq
    have := ih hread
    simp only [List.length_cons]
    omega
  | case2 cs =>
    obtain ⟨-, rfl⟩ := Prod.mk.inj (Option.some.inj h)
    exact Nat.le_succ _
  | case3 c cs hdoubled hsingle ih =>
    obtain ⟨⟨inner, rest'⟩, hread, heq⟩ := Option.map_eq_some_iff.mp h
    obtain ⟨-, rfl⟩ := Prod.mk.inj heq
    exact Nat.le_succ_of_le (ih hread)
  | case4 => exact nomatch h

theorem length_readChars? {cs name rest : List Char} (h : readChars? cs = some (name, rest)) :
    rest.length ≤ cs.length := by
  revert h
  fun_cases readChars? cs with
  | case1 cs => exact fun h => Nat.le_succ_of_le (length_readQuoted? h)
  | case2 =>
    intro h
    obtain ⟨-, rfl⟩ := Prod.mk.inj (Option.some.inj h)
    exact (List.dropWhile_suffix isPart).length_le

/-- The labels at the front of a text, each behind a colon, and what follows them. -/
def readLabelChars? (cs : List Char) : Option (List String × List Char) :=
  match cs with
  | ':' :: rest =>
    match _h : readChars? rest with
    | some (name, rest') =>
      (readLabelChars? rest').map fun (labels, rest) => (String.ofList name :: labels, rest)
    | none => none
  | cs => some ([], cs)
termination_by cs.length
decreasing_by exact Nat.lt_succ_of_le (length_readChars? _h)

/-- The labels at the front of a text, each behind a colon, and what follows them. -/
def readLabels? (text : String) : Option (List String × String) :=
  (readLabelChars? text.toList).map fun (labels, rest) => (labels, String.ofList rest)

/-! ### Reading identifiers back -/

/-- The text does not go on with the identifier in front of it: it begins with no name character and
no backtick. -/
def Ends (rest : String) : Prop := ∀ c ∈ rest.toList.head?, isPart c = false ∧ c ≠ '`'

instance (rest : String) : Decidable (Ends rest) := Option.decidableForallMem rest.toList.head?

/-- A closing backtick is single as long as no other one follows. -/
theorem readQuoted?_close {rest : List Char} (h : rest.head? ≠ some '`') :
    readQuoted? ('`' :: rest) = some ([], rest) := by
  rw [readQuoted?]
  rintro rest' rfl
  exact h rfl

/-- Inside a quotation every character is read back, and backticks are, being doubled. -/
theorem readQuoted?_escape (name : List Char) {rest : List Char} (h : rest.head? ≠ some '`') :
    readQuoted? (escape name ++ '`' :: rest) = some (name, rest) := by
  induction name with
  | nil => exact readQuoted?_close h
  | cons c cs ih =>
    rw [escape]
    by_cases hc : c = '`'
    · rw [if_pos hc, List.cons_append, List.cons_append, readQuoted?, ih, Option.map_some, hc]
    · rw [if_neg hc, List.cons_append, readQuoted?, ih, Option.map_some]
      · exact fun _ heq => absurd heq hc
      · exact hc

theorem ne_of_isPart {c : Char} (h : isPart c = true) : c ≠ '`' := by
  rintro rfl
  exact absurd h (by decide)

/-- A name that needs no quotes consists of name characters, of which there is one at least. -/
theorem isPart_of_isPlain {name : List Char} (h : isPlain name = true) :
    name ≠ [] ∧ ∀ c ∈ name, isPart c = true := by
  cases name with
  | nil => exact nomatch h
  | cons c cs =>
    rw [isPlain, Bool.and_eq_true, List.all_eq_true] at h
    refine ⟨List.cons_ne_nil c cs, fun d hd => ?_⟩
    rcases List.mem_cons.mp hd with rfl | hd
    · simp [isPart, h.1]
    · exact h.2 d hd

/-- What does not begin with a backtick is read as a run. -/
theorem readChars?_run {cs : List Char} (h : cs.head? ≠ some '`') :
    readChars? cs = some (cs.takeWhile isPart, cs.dropWhile isPart) := by
  rw [readChars?]
  rintro rest rfl
  exact h rfl

theorem readChars?_quoteChars (name : List Char) {rest : List Char}
    (h : ∀ c ∈ rest.head?, isPart c = false ∧ c ≠ '`') :
    readChars? (quoteChars name ++ rest) = some (name, rest) := by
  rw [quoteChars]
  split
  case isTrue hplain =>
    obtain ⟨hne, hpart⟩ := isPart_of_isPlain hplain
    have hhead : (name ++ rest).head? ≠ some '`' := by
      rw [List.head?_append_of_ne_nil _ hne]
      exact fun hc => ne_of_isPart (hpart _ (List.mem_of_head? hc)) rfl
    have hstop : ∀ c ∈ rest.head?, isPart c = false := fun c hc => (h c hc).1
    rw [readChars?_run hhead, takeWhile_run hpart hstop, dropWhile_run hpart hstop]
  case isFalse =>
    rw [List.cons_append, List.append_assoc, readChars?]
    exact readQuoted?_escape name fun hc => (h _ hc).2 rfl

/-- An identifier is read back, and the text behind it is left. A backtick inside is doubled, so the
first single one ends the identifier, provided that none follows it at once. -/
theorem read?_quote (name : String) {rest : String} (h : Ends rest) :
    read? (quote name ++ rest) = some (name, rest) := by
  rw [read?, String.toList_append, quote, String.toList_ofList, readChars?_quoteChars _ h]
  simp only [Option.map_some, String.ofList_toList]

example : read? "`a``b`.c" = some ("a`b", ".c") := by decide

/-! ### Reading labels back -/

/-- The text does not go on with the labels in front of it: not with the last of them, and not with a
further one. -/
def EndsLabels (rest : String) : Prop := Ends rest ∧ rest.toList.head? ≠ some ':'

instance (rest : String) : Decidable (EndsLabels rest) := inferInstanceAs (Decidable (_ ∧ _))

theorem ends_colon (rest : String) : Ends (":" ++ rest) := by
  intro c hc
  rw [String.toList_append] at hc
  obtain rfl : ':' = c := Option.some.inj hc
  decide

/-- What stands behind a label: another one, or the text behind all of them. -/
theorem ends_labelFragment (labels : List String) {rest : String} (h : Ends rest) :
    Ends (labelFragment labels ++ rest) := by
  cases labels with
  | nil => rwa [labelFragment, String.empty_append]
  | cons label labels =>
    rw [labelFragment, String.append_assoc, String.append_assoc]
    exact ends_colon _

theorem readLabelChars?_nil {cs : List Char} (h : cs.head? ≠ some ':') :
    readLabelChars? cs = some ([], cs) := by
  rw [readLabelChars?]
  rintro rest rfl
  exact h rfl

theorem readLabelChars?_cons {cs name rest : List Char} (h : readChars? cs = some (name, rest)) :
    readLabelChars? (':' :: cs) =
      (readLabelChars? rest).map fun (labels, rest) => (String.ofList name :: labels, rest) := by
  rw [readLabelChars?]
  split
  case h_1 name' rest' h' =>
    obtain ⟨rfl, rfl⟩ := Prod.mk.inj (Option.some.inj (h.symm.trans h'))
    rfl
  case h_2 h' => exact nomatch h.symm.trans h'

theorem readLabelChars?_labelFragment (labels : List String) {rest : String} (h : EndsLabels rest) :
    readLabelChars? (labelFragment labels ++ rest).toList = some (labels, rest.toList) := by
  induction labels with
  | nil =>
    rw [labelFragment, String.empty_append]
    exact readLabelChars?_nil h.2
  | cons label labels ih =>
    have htext : (labelFragment (label :: labels) ++ rest).toList =
        ':' :: (quoteChars label.toList ++ (labelFragment labels ++ rest).toList) := by
      simp [labelFragment, quote]
    rw [htext, readLabelChars?_cons (readChars?_quoteChars _ (ends_labelFragment labels h.1)), ih,
      Option.map_some, String.ofList_toList]

/-- Labels are read back, and the text behind them is left. -/
theorem readLabels?_labelFragment (labels : List String) {rest : String} (h : EndsLabels rest) :
    readLabels? (labelFragment labels ++ rest) = some (labels, rest) := by
  rw [readLabels?, readLabelChars?_labelFragment labels h]
  simp only [Option.map_some, String.ofList_toList]

/-! ### Quoting is safe -/

/-- **Quoting is undone by reading.** Every name is read back from its quotation and every list of
labels from its fragment, and the text behind is left as it is. So no name ends its own quotation, and
different names, as well as different lists of labels, are written differently. -/
theorem quoted_read_back :
    (∀ name rest, Ends rest → read? (quote name ++ rest) = some (name, rest)) ∧
      (∀ labels rest, EndsLabels rest →
        readLabels? (labelFragment labels ++ rest) = some (labels, rest)) ∧
      Function.Injective quote ∧ Function.Injective labelFragment := by
  have hend : EndsLabels "" := by decide
  refine ⟨fun name rest h => read?_quote name h,
    fun labels rest h => readLabels?_labelFragment labels h, fun name name' heq => ?_,
    fun labels labels' heq => ?_⟩
  · have hread := read?_quote name hend.1
    rw [heq, read?_quote name' hend.1] at hread
    exact (Prod.mk.inj (Option.some.inj hread)).1.symm
  · have hread := readLabels?_labelFragment labels hend
    rw [heq, readLabels?_labelFragment labels' hend] at hread
    exact (Prod.mk.inj (Option.some.inj hread)).1.symm

/-- A name with backticks at both ends, the empty label, and a label that looks like two. -/
theorem quoted_read_back_backticks :
    Ends " = $p" ∧ EndsLabels ") RETURN n0" ∧
      read? (quote "``a`" ++ " = $p") = some ("``a`", " = $p") ∧
      readLabels? (labelFragment ["", "A`:`B", "C_1"] ++ ") RETURN n0") =
        some (["", "A`:`B", "C_1"], ") RETURN n0") :=
  have hname : Ends " = $p" := by decide
  have hlabels : EndsLabels ") RETURN n0" := by decide
  ⟨hname, hlabels, quoted_read_back.1 _ _ hname, quoted_read_back.2.1 _ _ hlabels⟩

end GraphMapping.Identifier
