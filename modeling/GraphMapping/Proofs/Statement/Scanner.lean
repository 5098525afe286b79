import GraphMapping.Proofs.Statement.ParamNames
import GraphMapping.Statement.Clause

/-!
# Placeholders in query text

The database reads a placeholder where a dollar sign stands outside of quoted identifiers, and takes
the longest name that follows it. The scanner here reads text in the same way: character by
character, with a doubled backtick inside a quoted identifier as an escape. It gives nothing when a
quoted identifier is still open at the end.

Text is written piece by piece, and a piece can change how the next one is read: a name goes on as
long as name characters follow, and a backtick behind a closing one opens the identifier again. So
the pieces of a statement are compared with what stands in front of them. `Reads` says what a piece
contributes by itself. It may follow plain text always, and any other piece when it stands `Apart`.

## Main definitions

* `Scan`, `Scan.step`: the scanner.
* `placeholders?`: the placeholders of a text.
* `Reads`: the placeholders that a piece of text contributes.
* `ReadsEach`: what several pieces contribute.
* `Plain`, `Apart`: text that contributes nothing, and text that cannot be taken for a part of what
  stands in front of it.

## Main results

* `Reads.append`, `Plain.reads_append`: how pieces are put together.
* `reads_quote`: a quoted identifier is closed, and nothing in it is read.
* `reads_param`: a dollar sign and a name are one placeholder.
-/

namespace GraphMapping

open Identifier (quote quoteChars escape isPlain isPart)

/-! ### The scanner -/

/-- Where a scan stands. -/
inductive ScanMode where
  | text
  /-- Behind a dollar sign and some characters of a name. -/
  | name (read : List Char)
  | quoted
  /-- Behind a backtick that ends a quoted identifier, unless another one follows. -/
  | quoteEnd

/-- A scan, with the placeholders found so far. -/
structure Scan where
  mode : ScanMode
  found : List String

namespace Scan

/-- A name goes on with letters, digits and underscores; all beyond ASCII count as letters. -/
def isNameChar (c : Char) : Bool := c.isAlphanum || c = '_' || 128 ≤ c.toNat

/-- Read a character outside of names and quoted identifiers. -/
def enter (found : List String) (c : Char) : Scan :=
  if c = '`' then ⟨.quoted, found⟩ else if c = '$' then ⟨.name [], found⟩ else ⟨.text, found⟩

/-- Read a character. -/
def step (s : Scan) (c : Char) : Scan :=
  match s.mode with
  | .text => enter s.found c
  | .name read =>
    if isNameChar c then ⟨.name (read ++ [c]), s.found⟩
    else enter (s.found ++ [String.ofList read]) c
  | .quoted => if c = '`' then ⟨.quoteEnd, s.found⟩ else s
  | .quoteEnd => if c = '`' then ⟨.quoted, s.found⟩ else enter s.found c

/-- What has been found when the text ends here; nothing, if a quoted identifier is open. -/
def finish (s : Scan) : Option (List String) :=
  match s.mode with
  | .text | .quoteEnd => some s.found
  | .name read => some (s.found ++ [String.ofList read])
  | .quoted => none

/-- Read characters in order. -/
def run (s : Scan) (cs : List Char) : Scan := cs.foldl step s

theorem run_append (s : Scan) (cs cs' : List Char) : s.run (cs ++ cs') = (s.run cs).run cs' :=
  List.foldl_append

end Scan

/-- The placeholders of a text in order, without the dollar sign. There are none to tell if a quoted
identifier is not closed. -/
def placeholders? (text : String) : Option (List String) :=
  ((⟨.text, []⟩ : Scan).run text.toList).finish

/-! ### Pieces of text -/

/-- The piece of text contributes these placeholders, and all its quoted identifiers are closed. -/
def Reads (text : String) (names : List String) : Prop :=
  ∀ found, ((⟨.text, found⟩ : Scan).run text.toList).finish = some (found ++ names)

/-- The text has neither placeholders nor quoted identifiers. -/
def Plain (text : String) : Prop := ∀ c ∈ text.toList, c ≠ '`' ∧ c ≠ '$'

/-- The text begins with a character that no name and no quoted identifier goes on with. -/
def Apart (text : String) : Prop := ∀ c ∈ text.toList.head?, c ≠ '`' ∧ Scan.isNameChar c = false

instance (text : String) : Decidable (Plain text) :=
  List.decidableBAll (fun c => c ≠ '`' ∧ c ≠ '$') text.toList

instance (text : String) : Decidable (Apart text) :=
  Option.decidableForallMem text.toList.head?

section Pieces

variable {a b : String} {ns ms : List String}

theorem Reads.placeholders?_eq (h : Reads a ns) : placeholders? a = some ns := h []

theorem Plain.append (ha : Plain a) (hb : Plain b) : Plain (a ++ b) := by
  intro c hc
  rw [String.toList_append] at hc
  exact (List.mem_append.mp hc).elim (ha c) (hb c)

/-- Plain text leaves the scanner where it is. -/
theorem Plain.run (h : Plain a) (found : List String) :
    (⟨.text, found⟩ : Scan).run a.toList = ⟨.text, found⟩ := by
  rw [Plain] at h
  generalize a.toList = cs at h
  induction cs with
  | nil => rfl
  | cons c rest ih =>
    obtain ⟨hquote, hdollar⟩ := h c (List.mem_cons_self ..)
    have hstep : (⟨.text, found⟩ : Scan).step c = ⟨.text, found⟩ := by
      rw [Scan.step, Scan.enter, if_neg hquote, if_neg hdollar]
    rw [Scan.run, List.foldl_cons, hstep]
    exact ih fun d hd => h d (List.mem_cons_of_mem _ hd)

theorem Plain.reads (h : Plain a) : Reads a [] := by
  intro found
  rw [h.run, List.append_nil]
  rfl

/-- Anything may follow plain text. It opens no quotes and ends in no placeholder, so the scanner is
behind it as it was in front. -/
theorem Plain.reads_append (ha : Plain a) (hb : Reads b ns) : Reads (a ++ b) ns := by
  intro found
  rw [String.toList_append, Scan.run_append, ha.run]
  exact hb found

/-- Text that stands apart is read as if it came first. -/
theorem Apart.finish_run (h : Apart b) {s : Scan} {found : List String}
    (hs : s.finish = some found) :
    (s.run b.toList).finish = ((⟨.text, found⟩ : Scan).run b.toList).finish := by
  rw [Apart] at h
  cases hb : b.toList with
  | nil => exact hs
  | cons c rest =>
    rw [hb, List.head?_cons] at h
    obtain ⟨hquote, hname⟩ := h c rfl
    have hstep : s.step c = (⟨.text, found⟩ : Scan).step c := by
      obtain ⟨mode, before⟩ := s
      cases mode with
      | text => cases hs; rfl
      | name read =>
        cases hs
        simp [Scan.step, hname]
      | quoted => cases hs
      | quoteEnd =>
        cases hs
        simp [Scan.step, hquote]
    rw [Scan.run, Scan.run, List.foldl_cons, List.foldl_cons, hstep]

/-- A piece of text may be followed by one that stands apart. A placeholder at the end of the first
piece would go on into letters at the front of the second, and this is what standing apart excludes.
-/
theorem Reads.append (ha : Reads a ns) (hb : Reads b ms) (hapart : Apart b) :
    Reads (a ++ b) (ns ++ ms) := by
  intro found
  rw [String.toList_append, Scan.run_append, hapart.finish_run (ha found), hb, List.append_assoc]

/-- Only the first character counts. -/
theorem Apart.append_of_ne (ha : Apart a) (hne : a ≠ "") (b : String) : Apart (a ++ b) := by
  intro c hc
  rw [String.toList_append] at hc
  cases hlist : a.toList with
  | nil => exact absurd (String.toList_eq_nil_iff.mp hlist) hne
  | cons d rest => exact ha c (by simpa [hlist] using hc)

/-- Pieces of text with what each contributes, put together. -/
inductive ReadsEach : List String → List String → Prop
  | nil : ReadsEach [] []
  | cons {text texts ns ms} (h : Reads text ns) (hrest : ReadsEach texts ms) :
    ReadsEach (text :: texts) (ns ++ ms)

theorem ReadsEach.append {texts texts' : List String} (h : ReadsEach texts ns)
    (h' : ReadsEach texts' ms) : ReadsEach (texts ++ texts') (ns ++ ms) := by
  induction h with
  | nil => exact h'
  | cons htext hrest ih =>
    rw [List.append_assoc]
    exact ih.cons htext

theorem readsEach_map {α : Type} {write : α → String} {names : α → List String} {items : List α}
    (h : ∀ item ∈ items, Reads (write item) (names item)) :
    ReadsEach (items.map write) (items.flatMap names) := by
  induction items with
  | nil => exact .nil
  | cons item rest ih =>
    exact (ih fun other hother => h other (List.mem_cons_of_mem _ hother)).cons
      (h item (List.mem_cons_self ..))

theorem readsEach_of_plain {texts : List String} (h : ∀ text ∈ texts, Plain text) :
    ReadsEach texts [] := by
  induction texts with
  | nil => exact .nil
  | cons text rest ih =>
    have hrest := ih fun other hother => h other (List.mem_cons_of_mem _ hother)
    exact hrest.cons (h text (List.mem_cons_self ..)).reads

/-- Pieces between plain separators that stand apart. -/
theorem ReadsEach.intercalate {separator : String} {texts : List String} (h : ReadsEach texts ns)
    (hseparator : Plain separator ∧ Apart separator ∧ separator ≠ "") :
    Reads (separator.intercalate texts) ns := by
  obtain ⟨hplain, hapart, hne⟩ := hseparator
  induction h with
  | nil => exact Plain.reads fun c hc => absurd hc List.not_mem_nil
  | @cons text texts ns ms htext hrest ih =>
    cases hrest with
    | nil =>
      rw [List.append_nil]
      exact htext
    | cons hnext hrest =>
      rw [String.intercalate_cons_cons, String.append_assoc]
      exact htext.append (hplain.reads_append ih) (hapart.append_of_ne hne _)

end Pieces

/-! ### Identifiers and parameters -/

/-- Inside a quoted identifier only a backtick that is not doubled ends it. -/
theorem run_escape (found : List String) (cs : List Char) :
    (⟨.quoted, found⟩ : Scan).run (escape cs) = ⟨.quoted, found⟩ := by
  induction cs with
  | nil => rfl
  | cons c rest ih =>
    rw [escape]
    split
    · exact ih
    · rename_i hc
      rw [Scan.run, List.foldl_cons, Scan.step, if_neg hc]
      exact ih

theorem isPart_ne {c : Char} (h : isPart c = true) : c ≠ '`' ∧ c ≠ '$' := by
  constructor
  · rintro rfl
    exact absurd h (by decide)
  · rintro rfl
    exact absurd h (by decide)

theorem plain_of_isPlain {name : String} (h : isPlain name.toList = true) : Plain name := by
  intro c hc
  cases hname : name.toList with
  | nil => simp [hname] at hc
  | cons d rest =>
    rw [hname, isPlain, Bool.and_eq_true, List.all_eq_true] at h
    rw [hname] at hc
    rcases List.mem_cons.mp hc with rfl | hc
    · exact isPart_ne (by simp [isPart, h.1])
    · exact isPart_ne (h.2 c hc)

/-- Nothing in an identifier is read, and its quotes are closed. -/
theorem reads_quote (name : String) : Reads (quote name) [] := by
  by_cases hplain : isPlain name.toList = true
  · have hquote : quote name = name := by
      rw [quote, quoteChars, if_pos hplain, String.ofList_toList]
    rw [hquote]
    exact (plain_of_isPlain hplain).reads
  · intro found
    rw [quote, String.toList_ofList, quoteChars, if_neg hplain, ← List.cons_append,
      Scan.run_append, List.append_nil]
    have hinside : (⟨.text, found⟩ : Scan).run ('`' :: escape name.toList) = ⟨.quoted, found⟩ :=
      run_escape found name.toList
    rw [hinside]
    rfl

theorem plain_of_isStem {name : String} (h : Names.IsStem name) : Plain name := by
  intro c hc
  have hchar := (h c hc).1
  constructor
  · rintro rfl
    exact absurd hchar (by decide)
  · rintro rfl
    exact absurd hchar (by decide)

theorem isNameChar_of_isParamChar {c : Char} (h : Names.isParamChar c = true) :
    Scan.isNameChar c = true := by
  simp only [Names.isParamChar, Bool.or_eq_true, decide_eq_true_eq] at h
  rcases h with (h | h) | rfl
  · simp [Scan.isNameChar, isAlphanum_iff, h]
  · simp [Scan.isNameChar, isAlphanum_iff, h]
  · decide

theorem reads_param {param : String} (h : Names.IsParam param) :
    Reads ("$" ++ param) [param] := by
  intro found
  have hname : ∀ (cs read : List Char), (∀ c ∈ cs, Names.isParamChar c = true) →
      (⟨.name read, found⟩ : Scan).run cs = ⟨.name (read ++ cs), found⟩ := by
    intro cs
    induction cs with
    | nil =>
      intro read _
      rw [List.append_nil]
      rfl
    | cons c rest ih =>
      intro read hcs
      have hc := isNameChar_of_isParamChar (hcs c (List.mem_cons_self ..))
      have hstep : (⟨.name read, found⟩ : Scan).step c = ⟨.name (read ++ [c]), found⟩ := if_pos hc
      have hrest := ih (read ++ [c]) fun d hd => hcs d (List.mem_cons_of_mem _ hd)
      rw [List.append_assoc, List.singleton_append] at hrest
      rw [Scan.run, List.foldl_cons, hstep]
      exact hrest
  have htext : ("$" ++ param).toList = '$' :: param.toList := by
    rw [String.toList_append]
    rfl
  have hdollar : (⟨.text, found⟩ : Scan).run ('$' :: param.toList) =
      (⟨.name [], found⟩ : Scan).run param.toList := rfl
  rw [htext, hdollar, hname _ _ h, List.nil_append]
  simp only [Scan.finish, String.ofList_toList]

end GraphMapping
