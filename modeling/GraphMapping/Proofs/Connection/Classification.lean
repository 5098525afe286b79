import Mathlib.Data.List.Infix
import GraphMapping.Error
import GraphMapping.Proofs.Connection.Violations

/-!
# Which errors become violations

An error of a connection is turned into text before it is searched for a violation, with words of
this library in front. These words never matter: no report can begin in them. What does matter is
that the text of every error is searched. An error about a column may tell of a report as well, in
its message or even in the name of the column, and is then taken for a violation.

The reports that the database writes about a node are recognised with their label, field and value,
unless the value has a line feed. Such a value cannot be shown on one line, and the report is passed
on as the error that it came in.

## Main definitions

* `ConstraintViolation.report`: what the database writes when a node violates a constraint.
* `ConnectionError.told`: what an error tells, without the words in front.

## Main results

* `ConstraintViolation.parseChars?_append`: what is in front of a report does not matter.
* `MapperError.classify_iff`: which errors become violations.
* `MapperError.classify_report_iff`: which reports of the database are recognised.
-/

namespace GraphMapping

namespace ConstraintViolation

variable {before rest : List Char}

/-! ### Text in front -/

/-- A text is passed over when no report begins in it. Every place of the text counts, also one at
which the opening words of a report would run on into what comes behind the text. -/
theorem parseChars?_append
    (h : ∀ last, last <:+ before → last ≠ [] → ¬opening <+: last ++ rest) :
    parseChars? (before ++ rest) = parseChars? rest := by
  induction before with
  | nil => rfl
  | cons c before ih =>
    have hhere : parseHere? (c :: (before ++ rest)) = none :=
      parseHere?_eq_none (h (c :: before) List.suffix_rfl (List.cons_ne_nil _ _))
    rw [List.cons_append, parseChars?_cons_of_none hhere]
    exact ih fun last hlast => h last (hlast.trans (List.suffix_cons ..))

/-- No report begins in the text, whatever follows. -/
def Apart (before : List Char) : Prop :=
  ∀ last ∈ before.tails, last ≠ [] → ¬opening <+: last ∧ ¬last <+: opening

instance (before : List Char) : Decidable (Apart before) :=
  List.decidableBAll (fun last => last ≠ [] → ¬opening <+: last ∧ ¬last <+: opening) before.tails

theorem Apart.parseChars?_append (h : Apart before) (rest : List Char) :
    parseChars? (before ++ rest) = parseChars? rest := by
  refine ConstraintViolation.parseChars?_append fun last hlast hne hbegins => ?_
  obtain ⟨hlong, hshort⟩ := h last ((List.mem_tails ..).mpr hlast) hne
  rcases List.prefix_or_prefix_of_prefix hbegins (List.prefix_append last rest) with hle | hle
  · exact hlong hle
  · exact hshort hle

theorem opening_eq_cons : opening = 'a' :: "lready exists with label `".toList := by decide

/-- A report begins with a certain letter, so text without this letter can stand in front of
anything. -/
theorem apart_of_not_mem (h : 'a' ∉ before) : Apart before := by
  intro last hlast hne
  have hlast : 'a' ∉ last := fun hmem => h (((List.mem_tails ..).mp hlast).subset hmem)
  constructor
  · exact fun hbegins => hlast (hbegins.subset (opening_eq_cons ▸ List.mem_cons_self))
  · rintro ⟨more, hmore⟩
    obtain ⟨c, last, rfl⟩ := List.exists_cons_of_ne_nil hne
    obtain ⟨rfl, -⟩ := List.cons.inj (hmore.trans opening_eq_cons)
    exact hlast List.mem_cons_self

/-- The words in front of a label, without the backtick. -/
def words : List Char := "already exists with label ".toList

/-- No report begins in a text without these words, if the next character is none of theirs. -/
theorem parseChars?_append_of_not_infix {text : List Char} {c : Char} (h : ¬words <:+: text)
    (hc : c ∉ words) (hrest : rest.head? = some c) :
    parseChars? (text ++ rest) = parseChars? rest := by
  refine parseChars?_append fun last hlast _ hbegins => h ?_
  have hwords : words <+: last ++ rest :=
    (opening_eq ▸ List.prefix_append words ['`'] : words <+: opening).trans hbegins
  rcases List.prefix_or_prefix_of_prefix hwords (List.prefix_append last rest) with
    hle | ⟨more, hmore⟩
  · exact hle.isInfix.trans hlast.isInfix
  · rw [← hmore, List.prefix_append_right_inj] at hwords
    cases more with
    | nil =>
      rw [List.append_nil] at hmore
      exact hmore ▸ hlast.isInfix
    | cons d more =>
      obtain ⟨tail, rfl⟩ := hwords
      obtain rfl := Option.some.inj hrest
      exact absurd (hmore ▸ List.mem_append_right last List.mem_cons_self) hc

/-! ### Values on one line -/

theorem not_mem_value {cs : List Char} {v : ConstraintViolation} (h : parseChars? cs = some v) :
    '\n' ∉ v.value.toList := by
  obtain ⟨before, rest, -, hhere, -⟩ := parseChars?_eq_some_iff.mp h
  obtain ⟨shown, blanks, hsplit, -, hvalue⟩ := exists_split_of_parseHere? hhere before
  obtain ⟨core, htrims, hunquotes⟩ := unquote_eq_iff.mp hvalue.symm
  obtain ⟨front, back, rfl, -⟩ := htrims.split
  intro hmem
  have hcore : '\n' ∈ core := by
    cases hunquotes with
    | quoted _ inner => exact List.mem_cons_of_mem _ (List.mem_append_left _ hmem)
    | plain _ => exact hmem
  exact hsplit.shown_line (List.mem_append_left _ (List.mem_append_right _ hcore))

theorem parseChars?_of_parseHere? {cs : List Char} {v : ConstraintViolation}
    (h : parseHere? cs = some v) : parseChars? cs = some v :=
  parseChars?_eq_some_iff.mpr
    ⟨[], cs, rfl, h, fun _ _ _ hlt => absurd hlt (Nat.not_lt_zero _)⟩

end ConstraintViolation

open ConstraintViolation

/-! ### Errors -/

/-- What an error tells, without the words of this library in front. -/
def ConnectionError.told : ConnectionError → String
  | backend message => message
  | driver text => text
  | decode column message => column ++ "`: " ++ message

/-- The words in front do not matter: what a report is looked for in is the whole rendered text of
an error, and none of the fixed words in it begins one. -/
theorem ConnectionError.parse?_message (e : ConnectionError) :
    parse? e.message = parse? e.told := by
  cases e with
  | backend message =>
    change parseChars? ("Backend error: " ++ message).toList = _
    rw [String.toList_append]
    exact Apart.parseChars?_append (by decide) _
  | driver text =>
    change parseChars? ("Neo4j driver error: " ++ text).toList = _
    rw [String.toList_append]
    exact Apart.parseChars?_append (by decide) _
  | decode column message =>
    change parseChars? ("Failed to decode `" ++ column ++ "`: " ++ message).toList =
      parseChars? (column ++ "`: " ++ message).toList
    rw [String.append_assoc, String.append_assoc, String.toList_append, String.append_assoc]
    exact Apart.parseChars?_append (by decide) _

/-- Nor does the name of a column, as long as it does not have the words of a report. -/
theorem ConnectionError.parse?_told_decode {column : String} (h : ¬words <:+: column.toList)
    (message : String) : parse? (ConnectionError.decode column message).told = parse? message := by
  change parseChars? (column ++ "`: " ++ message).toList = parseChars? message.toList
  have hcolon : ("`: ".toList ++ message.toList).head? = some '`' := rfl
  rw [String.append_assoc, String.toList_append, String.toList_append,
    parseChars?_append_of_not_infix h (by decide) hcolon]
  exact Apart.parseChars?_append (by decide) _

namespace MapperError

/-- An error becomes the violation that it tells of. The words that the connection puts in front of
what it was told have been passed over here, so that only the text from outside matters. -/
theorem classify_eq (e : ConnectionError) :
    classify e = (parse? e.told).elim (connection e) constraintViolation := by
  rw [classify, e.parse?_message]
  cases parse? e.told with
  | none => rfl
  | some v => rfl

/-- **Which errors become violations.** An error becomes the violation that it tells of, and stays
what it is if it tells of none. This holds of every error: one from the database tells its message,
and one of the driver the driver's own text, in which the server's refusals come as well; one about
a column tells of the name of the column too, which may complete a report, but not without some of
its words. -/
theorem classify_iff (e : ConnectionError) :
    (∀ v, classify e = constraintViolation v ↔ parse? e.told = some v) ∧
      (classify e = connection e ↔ parse? e.told = none) ∧
      (∀ text, e = .backend text ∨ e = .driver text → e.told = text) ∧
      ∀ column message, e = .decode column message → ¬words <:+: column.toList →
        parse? e.told = parse? message := by
  rw [classify_eq]
  refine ⟨?_, ?_, ?_, ?_⟩
  · intro v
    cases parse? e.told with
    | none => exact ⟨fun h => (nomatch h), fun h => (nomatch h)⟩
    | some w => exact ⟨fun h => congrArg some (constraintViolation.inj h),
        fun h => congrArg _ (Option.some.inj h)⟩
  · cases parse? e.told with
    | none => exact ⟨fun _ => rfl, fun _ => rfl⟩
    | some w => exact ⟨fun h => (nomatch h), fun h => (nomatch h)⟩
  · rintro text (rfl | rfl) <;> rfl
  · rintro column message rfl hcolumn
    exact ConnectionError.parse?_told_decode hcolumn message

-- a refusal that the driver passes on
example : classify (.driver "Node(1) already exists with label `A` and property `b` = 'c'") =
    constraintViolation ⟨"A", "b", "c"⟩ := by decide +kernel

/-- An error about a column is taken for a violation. -/
theorem classify_mistakes_decode :
    let e := ConnectionError.decode "n" "already exists with label `A` and property `b` = 1"
    classify e = constraintViolation ⟨"A", "b", "1"⟩ ∧ classify e ≠ connection e := by
  intro e
  have h : classify e = constraintViolation ⟨"A", "b", "1"⟩ := by decide +kernel
  exact ⟨h, fun hsame => nomatch h.symm.trans hsame⟩

end MapperError

/-! ### Reports of the database -/

namespace ConstraintViolation

/-- What the database writes when a node violates a constraint. -/
def report (id : Int64) (label field value : String) : String :=
  "Node(" ++ toString id.toInt ++ ") already exists with label `" ++ label ++ "` and property `" ++
    field ++ "` = '" ++ value ++ "'"

/-- A value in quotes, as the database shows it. -/
def quoted (value : List Char) : List Char := '\'' :: (value ++ ['\''])

variable {label field value : List Char}

theorem toList_report (id : Int64) (label field value : String) :
    (report id label field value).toList =
      ("Node(".toList ++ (toString id.toInt).toList ++ ") ".toList) ++
        (sentence label.toList field.toList ++ quoted value.toList) := by
  have hfront : ") already exists with label `".toList = ") ".toList ++ opening := by decide
  have hmiddle : "` and property `".toList = middle := rfl
  have hback : "` = '".toList = closing ++ ['\''] := by decide
  have hend : "'".toList = ['\''] := by decide
  change ("Node(" ++ toString id.toInt ++ ") already exists with label `" ++ label ++
    "` and property `" ++ field ++ "` = '" ++ value ++ "'").toList = _
  rw [String.toList_append, String.toList_append, String.toList_append, String.toList_append,
    String.toList_append, String.toList_append, String.toList_append, String.toList_append,
    hfront, hmiddle, hback, hend, sentence, quoted]
  simp only [List.append_assoc, List.cons_append, List.nil_append]

theorem not_mem_toString (i : Int) : 'a' ∉ (toString i).toList := by
  have hnat : ∀ n : Nat, 'a' ∉ (toString n).toList := by
    intro n hmem
    have hdigits : (toString n).toList = Nat.toDigits 10 n := by simp
    rw [hdigits] at hmem
    exact absurd (Nat.isDigit_of_mem_toDigits (by decide) (by decide) hmem) (by decide)
  cases i with
  | ofNat n => exact hnat n
  | negSucc n =>
    have hminus : toString (Int.negSucc n) = "-" ++ toString (n + 1) := rfl
    rw [hminus, String.toList_append, List.mem_append]
    rintro (hmem | hmem)
    · exact absurd hmem (by decide)
    · exact hnat _ hmem

theorem parse?_report (id : Int64) (label field value : String) :
    parse? (report id label field value) =
      parseChars? (sentence label.toList field.toList ++ quoted value.toList) := by
  rw [parse?, toList_report]
  refine Apart.parseChars?_append (apart_of_not_mem ?_) _
  simp only [List.mem_append, not_or]
  exact ⟨⟨by decide, not_mem_toString _⟩, by decide⟩

theorem trims_quoted (value : List Char) : Text.Trims (quoted value) (quoted value) := by
  refine ⟨⟨[], [], (List.append_nil _).symm, by simp, by simp⟩, ?_, ?_⟩
  · intro c hc
    obtain rfl := Option.some.inj hc
    decide
  · intro c hc
    rw [quoted, ← List.cons_append, List.getLast?_concat] at hc
    obtain rfl := Option.some.inj hc
    decide

theorem shownValue?_quoted (value : List Char) :
    shownValue? (quoted value) = if '\n' ∈ value then none else some (quoted value) := by
  have hmem : '\n' ∈ quoted value ↔ '\n' ∈ value := by simp [quoted]
  rw [shownValue?.eq_def, Text.trimEnd_eq_self (trims_quoted value).last]
  exact if_congr hmem rfl rfl

/-- A value on one line is read as it is. -/
theorem parseChars?_sentence_quoted (hlabel : IsName label) (hfield : IsName field)
    (hline : '\n' ∉ value) : parseChars? (sentence label field ++ quoted value) =
      some ⟨String.ofList label, String.ofList field, String.ofList value⟩ := by
  have hunquote : unquote (quoted value) = value :=
    unquote_eq_iff.mpr ⟨_, trims_quoted value, .quoted (.inl rfl) value⟩
  have hshown : shownValue? (quoted value) = some (quoted value) := by
    rw [shownValue?_quoted, if_neg hline]
  refine parseChars?_of_parseHere? (parseHere?_eq_some_iff.mpr ⟨label, field, _, _, hlabel, hfield,
    rfl, hshown, ?_⟩)
  rw [hunquote]

/-- With a value on several lines, there is no report where the sentence is, and none elsewhere if
no text has the words of another one. -/
theorem parseChars?_sentence_quoted_eq_none (hlabel : IsName label) (hfield : IsName field)
    (hline : '\n' ∈ value) (hwords : ∀ text ∈ [label, field, value], ¬words <:+: text) :
    parseChars? (sentence label field ++ quoted value) = none := by
  obtain ⟨hlabel', hfield', hvalue'⟩ := by simpa only [List.forall_mem_cons] using hwords
  have hhere : parseHere? (sentence label field ++ quoted value) = none := by
    refine Option.eq_none_iff_forall_ne_some.mpr fun v hv => ?_
    obtain ⟨_, _, rest, shown, hname, hname', heq, hshown, -⟩ := parseHere?_eq_some_iff.mp hv
    obtain ⟨-, -, rfl⟩ := sentence_inj hlabel hfield hname hname' heq
    rw [shownValue?_quoted, if_pos hline] at hshown
    cases hshown
  rw [sentence_append, opening_eq_cons, List.cons_append] at hhere ⊢
  rw [parseChars?_cons_of_none hhere, Apart.parseChars?_append (by decide),
    parseChars?_append_of_not_infix hlabel' (by decide) (head?_middle_append _),
    Apart.parseChars?_append (by decide),
    parseChars?_append_of_not_infix hfield' (by decide) (head?_closing_append _),
    Apart.parseChars?_append (by decide)]
  have hquoted : quoted value = ['\''] ++ (value ++ ['\'']) := rfl
  have hquote : ['\''].head? = some '\'' := rfl
  rw [hquoted, Apart.parseChars?_append (by decide),
    parseChars?_append_of_not_infix hvalue'.1 (by decide) hquote]
  decide

end ConstraintViolation

namespace MapperError

/-- **Which reports are recognised.** A report of the database is recognised, with its label, field
and value, exactly if the value has no line feed. One that is not recognised remains the error that
it came in, unless label, field or value look like a part of another report. -/
theorem classify_report_iff (id : Int64) {label field : String} (value : String)
    (hlabel : IsName label.toList) (hfield : IsName field.toList) :
    let e := ConnectionError.backend (report id label field value)
    (classify e = constraintViolation ⟨label, field, value⟩ ↔ '\n' ∉ value.toList) ∧
      ('\n' ∈ value.toList → (∀ text ∈ [label, field, value], ¬words <:+: text.toList) →
        classify e = connection e) := by
  intro e
  have htold : parse? e.told =
      parseChars? (sentence label.toList field.toList ++ quoted value.toList) :=
    parse?_report id label field value
  rw [classify_eq, htold]
  refine ⟨⟨?_, fun hline => ?_⟩, fun hline hwords => ?_⟩
  · intro h
    cases hread : parseChars? (sentence label.toList field.toList ++ quoted value.toList) with
    | none =>
      rw [hread] at h
      cases h
    | some v =>
      rw [hread] at h
      obtain rfl := constraintViolation.inj h
      exact not_mem_value hread
  · rw [parseChars?_sentence_quoted hlabel hfield hline]
    simp only [Option.elim_some, String.ofList_toList]
  · rw [parseChars?_sentence_quoted_eq_none hlabel hfield hline (by simpa using hwords)]
    rfl

/-- A value with quotes, backticks and blanks. -/
theorem classify_report_iff_email :
    let value := " it's `already exists with label ` "
    IsName "User".toList ∧ IsName "e mail".toList ∧ '\n' ∉ value.toList ∧
      classify (.backend (report (-12) "User" "e mail" value)) =
        constraintViolation ⟨"User", "e mail", value⟩ :=
  have huser : IsName "User".toList := ⟨by decide, by decide⟩
  have hmail : IsName "e mail".toList := ⟨by decide, by decide⟩
  ⟨huser, hmail, by decide, (classify_report_iff (-12) _ huser hmail).1.mpr (by decide)⟩

/-- A value on two lines is not recognised, so that one constraint is reported for one node and
missed for another. -/
theorem classify_misses_lines :
    let e := ConnectionError.backend (report 1 "Person" "name" "a\nb")
    classify e = connection e ∧ classify e ≠ constraintViolation ⟨"Person", "name", "a\nb"⟩ := by
  intro e
  have hnone : parse? e.told = none := (parse?_report 1 "Person" "name" "a\nb").trans
    (parseChars?_sentence_quoted_eq_none ⟨by decide, by decide⟩ ⟨by decide, by decide⟩ (by decide)
      (by decide))
  have h : classify e = connection e := by rw [classify_eq, hnone, Option.elim_none]
  exact ⟨h, fun hsame => nomatch h.symm.trans hsame⟩

end MapperError

end GraphMapping
