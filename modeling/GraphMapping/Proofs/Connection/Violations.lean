import GraphMapping.Connection.Constraint
import GraphMapping.Proofs.Statement.ParamNames
import GraphMapping.Proofs.Text.Runs
import GraphMapping.Proofs.Text.Trimming

/-!
# Which messages report a violation

A message reports a violation when it ends in a certain sentence about a label and a field, the
value behind it, and blanks. There may be several ways to read one message like this: the sentence
may be there more than once, and nothing but blanks may stand at the end of the value. The way that
counts begins as early as possible, and from there it takes the shortest value.

The names have no backticks, and this is why they end where they do: what is behind the first
backtick can only be the rest of the sentence.

## Main definitions

* `ConstraintViolation.sentence`: the sentence about a label and a field.
* `ConstraintViolation.Split`: a way to read a message.
* `ConstraintViolation.Unquotes`: a text without the quotes around it.
* `ConstraintViolation.Reports`: the violation that a message reports.

## Main results

* `ConstraintViolation.shownValue?_eq_some_iff`: the shortest value is taken.
* `ConstraintViolation.parseHere?_eq_some_iff`: what is read at the front of a text.
* `ConstraintViolation.parseChars?_eq_some_iff`: the earliest place is taken.
* `ConstraintViolation.parse?_iff_reports`: the reader finds what messages report, and nothing else.
-/

namespace GraphMapping.ConstraintViolation

open Text (isBlank trimEnd)

variable {cs rest : List Char}

/-! ### The sentence -/

/-- A name between backticks: it is not empty and has no backtick. -/
structure IsName (name : List Char) : Prop where
  ne_nil : name ≠ []
  not_mem : '`' ∉ name

/-- The words in front of a label. -/
def opening : List Char := "already exists with label `".toList

/-- The words between a label and a field. -/
def middle : List Char := "` and property `".toList

/-- The words between a field and a value. -/
def closing : List Char := "` = ".toList

/-- The sentence about a label and a field, up to the value. -/
def sentence (label field : List Char) : List Char :=
  opening ++ label ++ middle ++ field ++ closing

theorem opening_eq : opening = "already exists with label ".toList ++ ['`'] := by decide

theorem middle_eq : middle = '`' :: " and property `".toList := by decide

theorem closing_eq : closing = '`' :: " = ".toList := by decide

theorem head?_middle_append (cs : List Char) : (middle ++ cs).head? = some '`' := by
  rw [middle_eq]
  rfl

theorem head?_closing_append (cs : List Char) : (closing ++ cs).head? = some '`' := by
  rw [closing_eq]
  rfl

theorem sentence_append (label field rest : List Char) : sentence label field ++ rest =
    opening ++ (label ++ (middle ++ (field ++ (closing ++ rest)))) := by
  simp only [sentence, List.append_assoc]

/-- What the sentence is about, and what is behind it, can be told from a text that begins with
it. -/
theorem sentence_inj {label field label' field' rest' : List Char} (hlabel : IsName label)
    (hfield : IsName field) (hlabel' : IsName label') (hfield' : IsName field')
    (h : sentence label field ++ rest = sentence label' field' ++ rest') :
    label = label' ∧ field = field' ∧ rest = rest' := by
  rw [sentence_append, sentence_append, middle_eq, closing_eq] at h
  obtain ⟨rfl, hmiddle⟩ := append_separator_inj hlabel.not_mem hlabel'.not_mem
    (List.append_cancel_left h)
  obtain ⟨rfl, hend⟩ := append_separator_inj hfield.not_mem hfield'.not_mem
    (List.append_cancel_left hmiddle)
  exact ⟨rfl, rfl, List.append_cancel_left hend⟩

theorem after?_eq_some_iff {literal : List Char} :
    after? literal cs = some rest ↔ cs = literal ++ rest := by
  rw [after?]
  constructor
  · intro h
    split at h
    · rename_i hbegins
      obtain ⟨tail, rfl⟩ := List.isPrefixOf_iff_prefix.mp hbegins
      rw [List.drop_left] at h
      rw [Option.some.inj h]
    · cases h
  · rintro rfl
    rw [if_pos (List.isPrefixOf_iff_prefix.mpr (List.prefix_append ..)), List.drop_left]

theorem name?_append {name : List Char} (h : IsName name) (hrest : rest.head? = some '`') :
    name? (name ++ rest) = some (name, rest) := by
  have hrun : ∀ c ∈ name, decide (c ≠ '`') = true := fun c hc =>
    decide_eq_true fun heq => h.not_mem (heq ▸ hc)
  have hstop : ∀ c ∈ rest.head?, decide (c ≠ '`') = false := by
    intro c hc
    obtain rfl : '`' = c := Option.some.inj (hrest.symm.trans hc)
    rfl
  rw [name?, takeWhile_run hrun hstop, if_neg h.ne_nil, dropWhile_run hrun hstop]

theorem eq_append_of_name? {name : List Char} (h : name? cs = some (name, rest)) :
    IsName name ∧ cs = name ++ rest := by
  rw [name?] at h
  split at h
  · cases h
  · rename_i hne
    obtain ⟨rfl, rfl⟩ := Prod.mk.inj (Option.some.inj h)
    refine ⟨⟨hne, fun hmem => ?_⟩, List.takeWhile_append_dropWhile.symm⟩
    have hother := List.mem_takeWhile_imp hmem
    exact of_decide_eq_true hother rfl

/-! ### The value -/

/-- The value as it is shown, on one line, with blanks behind it. -/
structure Shows (cs shown blanks : List Char) : Prop where
  text : cs = shown ++ blanks
  ne_nil : shown ≠ []
  line : '\n' ∉ shown
  blank : ∀ c ∈ blanks, isBlank c = true

/-- All that can be shown begins with the text up to the last character that is not blank. -/
theorem Shows.prefix_of_trimEnd {shown blanks : List Char} (h : Shows cs shown blanks) :
    trimEnd cs <+: shown := by
  rw [h.text, Text.trimEnd_append_blanks h.blank, Text.trimEnd_eq_rdropWhile]
  exact List.rdropWhile_prefix isBlank _

/-- The value that is taken is one that can be shown, and the shortest. -/
theorem shows_of_shownValue? {shown : List Char} (h : shownValue? cs = some shown) :
    ∃ blanks, Shows cs shown blanks ∧
      ∀ shown' blanks', Shows cs shown' blanks' → shown.length ≤ shown'.length := by
  obtain ⟨back, hcs, hback⟩ := Text.exists_eq_trimEnd_append cs
  rw [shownValue?.eq_def] at h
  split at h
  · -- only blanks: the first of them is taken
    rename_i hcore
    cases cs with
    | nil => cases h
    | cons c rest =>
      dsimp only at h
      split at h
      · cases h
      · rename_i hline
        obtain rfl := Option.some.inj h
        rw [hcore, List.nil_append] at hcs
        refine ⟨rest, ⟨rfl, List.cons_ne_nil _ _, ?_, fun d hd => hback d ?_⟩, ?_⟩
        · exact fun hmem => hline (List.mem_singleton.mp hmem).symm
        · exact hcs ▸ List.mem_cons_of_mem _ hd
        · exact fun shown' _ hshows => List.length_pos_iff.mpr hshows.ne_nil
  · rename_i hcore
    split at h
    · cases h
    · rename_i hline
      obtain rfl := Option.some.inj h
      exact ⟨back, ⟨hcs, hcore, hline, hback⟩, fun _ _ hshows => hshows.prefix_of_trimEnd.length_le⟩

/-- Where a value can be shown, one is taken. -/
theorem Shows.exists_shownValue? {shown blanks : List Char} (h : Shows cs shown blanks) :
    ∃ taken, shownValue? cs = some taken := by
  rw [shownValue?.eq_def]
  split
  · cases cs with
    | nil => exact absurd (List.append_eq_nil_iff.mp h.text.symm).1 h.ne_nil
    | cons c rest =>
      refine ⟨[c], if_neg fun hline => h.line ?_⟩
      obtain ⟨first, shown, rfl⟩ := List.exists_cons_of_ne_nil h.ne_nil
      obtain ⟨rfl, -⟩ := List.cons.inj h.text
      exact hline ▸ List.mem_cons_self
  · exact ⟨_, if_neg fun hmem => h.line (h.prefix_of_trimEnd.subset hmem)⟩

/-- The shortest value is taken. Where several values could be shown at the same place, because what
ends a value also occurs in it, the reader settles for the one that ends first. -/
theorem shownValue?_eq_some_iff {shown : List Char} : shownValue? cs = some shown ↔
    ∃ blanks, Shows cs shown blanks ∧
      ∀ shown' blanks', Shows cs shown' blanks' → shown.length ≤ shown'.length := by
  refine ⟨shows_of_shownValue?, ?_⟩
  rintro ⟨blanks, hshows, hshortest⟩
  obtain ⟨taken, htaken⟩ := hshows.exists_shownValue?
  obtain ⟨blanks', hshows', hshortest'⟩ := shows_of_shownValue? htaken
  have hlength : taken.length = shown.length :=
    Nat.le_antisymm (hshortest' _ _ hshows) (hshortest _ _ hshows')
  rw [htaken, List.append_inj_left (hshows'.text.symm.trans hshows.text) hlength]

/-! ### Quotes around the value -/

/-- The text without one pair of quotes around it, single or double. A text that has no such pair is
left as it is. -/
inductive Unquotes : List Char → List Char → Prop
  | quoted {q : Char} (quote : q = '\'' ∨ q = '"') (inner : List Char) :
    Unquotes (q :: (inner ++ [q])) inner
  | plain {cs : List Char} (bare : ∀ q inner, q = '\'' ∨ q = '"' → cs ≠ q :: (inner ++ [q])) :
    Unquotes cs cs

theorem stripQuote?_eq_some_iff {q : Char} {inner : List Char} :
    stripQuote? q cs = some inner ↔ cs = q :: (inner ++ [q]) := by
  cases cs with
  | nil => exact ⟨fun h => (nomatch h), fun h => (nomatch h)⟩
  | cons c rest =>
    rw [stripQuote?]
    constructor
    · intro h
      split at h
      · rename_i hquotes
        obtain ⟨rfl, hlast⟩ := hquotes
        rw [← Option.some.inj h, List.dropLast_append_getLast? _ hlast]
      · cases h
    · intro h
      obtain ⟨rfl, rfl⟩ := List.cons.inj h
      rw [if_pos ⟨rfl, List.getLast?_concat⟩, List.dropLast_concat]

theorem unquotes_iff {value : List Char} : Unquotes cs value ↔
    ((stripQuote? '\'' cs).orElse fun _ => stripQuote? '"' cs).getD cs = value := by
  have hnone : ∀ q, (∀ inner, cs ≠ q :: (inner ++ [q])) → stripQuote? q cs = none := fun q hbare =>
    Option.eq_none_iff_forall_ne_some.mpr fun inner h => hbare inner (stripQuote?_eq_some_iff.mp h)
  constructor
  · intro h
    cases h with
    | quoted quote =>
      rcases quote with rfl | rfl
      · rw [stripQuote?_eq_some_iff.mpr rfl]
        rfl
      · rw [hnone '\'' fun inner heq => absurd (List.cons.inj heq).1 (by decide),
          stripQuote?_eq_some_iff.mpr rfl]
        rfl
    | plain bare =>
      rw [hnone '\'' fun inner => bare _ inner (.inl rfl), hnone '"' fun inner =>
        bare _ inner (.inr rfl)]
      rfl
  · rintro rfl
    cases hsingle : stripQuote? '\'' cs with
    | some inner =>
      obtain rfl := stripQuote?_eq_some_iff.mp hsingle
      exact .quoted (.inl rfl) inner
    | none =>
      cases hdouble : stripQuote? '"' cs with
      | some inner =>
        obtain rfl := stripQuote?_eq_some_iff.mp hdouble
        exact .quoted (.inr rfl) inner
      | none =>
        refine .plain fun q inner hquote heq => ?_
        rcases hquote with rfl | rfl
        · rw [stripQuote?_eq_some_iff.mpr heq] at hsingle
          cases hsingle
        · rw [stripQuote?_eq_some_iff.mpr heq] at hdouble
          cases hdouble

/-- The value that is taken has neither blanks nor quotes around it. -/
theorem unquote_eq_iff {shown value : List Char} :
    unquote shown = value ↔ ∃ core, Text.Trims shown core ∧ Unquotes core value := by
  constructor
  · exact fun h => ⟨Text.trimList shown, Text.trims_trimList shown, unquotes_iff.mpr h⟩
  · rintro ⟨core, htrims, hunquotes⟩
    rw [unquote, htrims.trimList_eq]
    exact unquotes_iff.mp hunquotes

/-! ### Reading at the front -/

theorem parseHere?_eq (cs : List Char) : parseHere? cs =
    (after? opening cs).bind fun cs => (name? cs).bind fun (label, cs) =>
      (after? middle cs).bind fun cs => (name? cs).bind fun (field, cs) =>
        (after? closing cs).bind fun cs => (shownValue? cs).bind fun shown =>
          some ⟨String.ofList label, String.ofList field, String.ofList (unquote shown)⟩ := rfl

/-- At the front of a text the sentence is read, and the shortest value behind it. -/
theorem parseHere?_eq_some_iff {v : ConstraintViolation} : parseHere? cs = some v ↔
    ∃ label field rest shown, IsName label ∧ IsName field ∧ cs = sentence label field ++ rest ∧
      shownValue? rest = some shown ∧
      v = ⟨String.ofList label, String.ofList field, String.ofList (unquote shown)⟩ := by
  constructor
  · intro h
    rw [parseHere?_eq] at h
    obtain ⟨cs₁, hopening, h⟩ := Option.bind_eq_some_iff.mp h
    obtain ⟨⟨label, cs₂⟩, hnamed, h⟩ := Option.bind_eq_some_iff.mp h
    obtain ⟨cs₃, hmiddle, h⟩ := Option.bind_eq_some_iff.mp h
    obtain ⟨⟨field, cs₄⟩, hnamed', h⟩ := Option.bind_eq_some_iff.mp h
    obtain ⟨rest, hclosing, h⟩ := Option.bind_eq_some_iff.mp h
    obtain ⟨shown, hshown, hv⟩ := Option.bind_eq_some_iff.mp h
    obtain rfl := after?_eq_some_iff.mp hopening
    obtain ⟨hlabel, rfl⟩ := eq_append_of_name? hnamed
    obtain rfl := after?_eq_some_iff.mp hmiddle
    obtain ⟨hfield, rfl⟩ := eq_append_of_name? hnamed'
    obtain rfl := after?_eq_some_iff.mp hclosing
    exact ⟨label, field, rest, shown, hlabel, hfield, (sentence_append ..).symm, hshown,
      (Option.some.inj hv).symm⟩
  · rintro ⟨label, field, rest, shown, hlabel, hfield, rfl, hshown, rfl⟩
    rw [parseHere?_eq, sentence_append, after?_eq_some_iff.mpr rfl, Option.bind_some,
      name?_append hlabel (head?_middle_append _), Option.bind_some]
    dsimp only
    rw [after?_eq_some_iff.mpr rfl, Option.bind_some,
      name?_append hfield (head?_closing_append _), Option.bind_some]
    dsimp only
    rw [after?_eq_some_iff.mpr rfl, Option.bind_some, hshown, Option.bind_some]

/-- The reading at a place fails when the place does not begin with the opening words. -/
theorem parseHere?_eq_none (h : ¬opening <+: cs) : parseHere? cs = none := by
  refine Option.eq_none_iff_forall_ne_some.mpr fun v hv => ?_
  obtain ⟨label, field, rest, -, -, -, rfl, -⟩ := parseHere?_eq_some_iff.mp hv
  rw [sentence_append] at h
  exact h (List.prefix_append ..)

/-! ### The earliest place -/

theorem parseChars?_cons_of_none {c : Char} (h : parseHere? (c :: rest) = none) :
    parseChars? (c :: rest) = parseChars? rest := by
  rw [parseChars?, h]
  rfl

/-- A message is read from the earliest place where this is possible. What stands in front of a
report does no harm, and of two reports in one message the first counts. -/
theorem parseChars?_eq_some_iff {v : ConstraintViolation} : parseChars? cs = some v ↔
    ∃ before rest, cs = before ++ rest ∧ parseHere? rest = some v ∧
      ∀ before' rest', cs = before' ++ rest' → before'.length < before.length →
        parseHere? rest' = none := by
  induction cs with
  | nil =>
    refine ⟨fun h => (nomatch h), ?_⟩
    rintro ⟨before, rest, hcs, hhere, -⟩
    obtain ⟨rfl, rfl⟩ := List.append_eq_nil_iff.mp hcs.symm
    cases hhere
  | cons c tail ih =>
    cases hhere : parseHere? (c :: tail) with
    | some first =>
      rw [parseChars?, hhere]
      constructor
      · intro h
        exact ⟨[], c :: tail, rfl, hhere.trans h, fun _ _ _ hlt => absurd hlt (Nat.not_lt_zero _)⟩
      · rintro ⟨before, rest, hcs, hrest, hfirst⟩
        cases before with
        | nil =>
          rw [List.nil_append] at hcs
          rw [← hrest, ← hcs, hhere]
          rfl
        | cons b before =>
          rw [hfirst [] (c :: tail) rfl (Nat.zero_lt_succ _)] at hhere
          cases hhere
    | none =>
      rw [parseChars?_cons_of_none hhere, ih]
      constructor
      · rintro ⟨before, rest, rfl, hrest, hfirst⟩
        refine ⟨c :: before, rest, rfl, hrest, fun before' rest' hcs hlt => ?_⟩
        cases before' with
        | nil =>
          rw [List.nil_append] at hcs
          rw [← hcs, hhere]
        | cons b before' =>
          exact hfirst before' rest' (List.cons.inj hcs).2 (Nat.lt_of_succ_lt_succ hlt)
      · rintro ⟨before, rest, hcs, hrest, hfirst⟩
        cases before with
        | nil =>
          rw [List.nil_append] at hcs
          rw [← hcs, hhere] at hrest
          cases hrest
        | cons b before =>
          obtain ⟨rfl, rfl⟩ := List.cons.inj hcs
          exact ⟨before, rest, rfl, hrest, fun before' rest' hcs hlt =>
            hfirst (c :: before') rest' (congrArg _ hcs) (Nat.succ_lt_succ hlt)⟩

/-! ### Readings of a message -/

/-- The message is something in front, the sentence about a label and a field, a value as it is
shown, and blanks. -/
structure Split (cs before label field shown blanks : List Char) : Prop where
  text : cs = before ++ (sentence label field ++ (shown ++ blanks))
  label_name : IsName label
  field_name : IsName field
  shown_ne_nil : shown ≠ []
  shown_line : '\n' ∉ shown
  blank : ∀ c ∈ blanks, isBlank c = true

/-- The message is read as a report of the violation: of all ways to read it the one with the least
in front, and then with the shortest value. The blanks around the value and then the quotes around
it do not belong to it. -/
structure Reading (cs : List Char) (v : ConstraintViolation)
    (before shown blanks core : List Char) : Prop where
  split : Split cs before v.label.toList v.field.toList shown blanks
  first : ∀ before' label field shown' blanks', Split cs before' label field shown' blanks' →
    before.length ≤ before'.length
  shortest : ∀ label field shown' blanks', Split cs before label field shown' blanks' →
    shown.length ≤ shown'.length
  trims : Text.Trims shown core
  unquotes : Unquotes core v.value.toList

/-- The message reports the violation. -/
def Reports (message : String) (v : ConstraintViolation) : Prop :=
  ∃ before shown blanks core, Reading message.toList v before shown blanks core

section

variable {before label field shown blanks : List Char}

theorem Split.shows (h : Split cs before label field shown blanks) :
    Shows (shown ++ blanks) shown blanks :=
  ⟨rfl, h.shown_ne_nil, h.shown_line, h.blank⟩

/-- Where a message can be read, it is read. -/
theorem Split.exists_parseHere? (h : Split (before ++ rest) before label field shown blanks) :
    ∃ v, parseHere? rest = some v := by
  obtain ⟨taken, htaken⟩ := h.shows.exists_shownValue?
  exact ⟨_, parseHere?_eq_some_iff.mpr ⟨label, field, _, taken, h.label_name, h.field_name,
    List.append_cancel_left h.text, htaken, rfl⟩⟩

/-- It is read only where it can be. -/
theorem exists_split_of_parseHere? {v : ConstraintViolation} (h : parseHere? rest = some v)
    (before : List Char) : ∃ shown blanks,
      Split (before ++ rest) before v.label.toList v.field.toList shown blanks ∧
      (∀ label field shown' blanks', Split (before ++ rest) before label field shown' blanks' →
        shown.length ≤ shown'.length) ∧ v.value.toList = unquote shown := by
  obtain ⟨label, field, tail, shown, hlabel, hfield, rfl, hshown, rfl⟩ :=
    parseHere?_eq_some_iff.mp h
  obtain ⟨blanks, hshows, hshortest⟩ := shownValue?_eq_some_iff.mp hshown
  simp only [String.toList_ofList]
  refine ⟨shown, blanks, ⟨?_, hlabel, hfield, hshows.ne_nil, hshows.line, hshows.blank⟩, ?_, rfl⟩
  · rw [hshows.text]
  · intro label' field' shown' blanks' hsplit
    obtain ⟨-, -, htail⟩ := sentence_inj hlabel hfield hsplit.label_name hsplit.field_name
      (List.append_cancel_left hsplit.text)
    exact hshortest shown' blanks' (htail ▸ hsplit.shows)

end

/-- **The reader finds what messages report.** A violation is read from a message exactly if the
message reports it. The right side is about the text alone and does not say how it is gone through.
-/
theorem parse?_iff_reports (message : String) (v : ConstraintViolation) :
    parse? message = some v ↔ Reports message v := by
  rw [parse?, parseChars?_eq_some_iff]
  constructor
  · rintro ⟨before, rest, hmessage, hhere, hnone⟩
    obtain ⟨shown, blanks, hsplit, hshortest, hvalue⟩ := exists_split_of_parseHere? hhere before
    obtain ⟨core, htrims, hunquotes⟩ := unquote_eq_iff.mp hvalue.symm
    rw [← hmessage] at hsplit hshortest
    refine ⟨before, shown, blanks, core, hsplit, ?_, hshortest, htrims, hunquotes⟩
    intro before' label field shown' blanks' hsplit'
    refine Nat.le_of_not_lt fun hlt => ?_
    have hnone' := hnone before' _ hsplit'.text hlt
    rw [hsplit'.text] at hsplit'
    obtain ⟨v', hv'⟩ := hsplit'.exists_parseHere?
    exact nomatch hnone'.symm.trans hv'
  · rintro ⟨before, shown, blanks, core, hread⟩
    have hsplit := hread.split
    refine ⟨before, _, hsplit.text, ?_, fun before' rest' hmessage hlt => ?_⟩
    · have hshown : shownValue? (shown ++ blanks) = some shown := by
        refine shownValue?_eq_some_iff.mpr ⟨blanks, hsplit.shows, fun shown' blanks' hshows => ?_⟩
        refine hread.shortest _ _ shown' blanks' ⟨?_, hsplit.label_name, hsplit.field_name,
          hshows.ne_nil, hshows.line, hshows.blank⟩
        rw [← hshows.text]
        exact hsplit.text
      have hvalue := unquote_eq_iff.mpr ⟨core, hread.trims, hread.unquotes⟩
      refine parseHere?_eq_some_iff.mpr ⟨_, _, _, shown, hsplit.label_name, hsplit.field_name, rfl,
        hshown, ?_⟩
      rw [hvalue, String.ofList_toList, String.ofList_toList, String.ofList_toList]
    · refine Option.eq_none_iff_forall_ne_some.mpr fun v' hv' => ?_
      obtain ⟨shown', blanks', hsplit', -⟩ := exists_split_of_parseHere? hv' before'
      rw [← hmessage] at hsplit'
      exact absurd (hread.first _ _ _ _ _ hsplit') (Nat.not_le_of_lt hlt)

end GraphMapping.ConstraintViolation
