import GraphMapping.Proofs.Statement.Drawing
import GraphMapping.Proofs.Statement.Scanner

/-!
# Placeholders in the text of clauses

Clauses are data until they are written, and the data says which parameter stands where. This module
reads the written text back: its placeholders are the parameters of the patterns, the assignments and
the conditions, in this order, whatever labels, types and field names contain. All that is asked for
is that variables are plain and that parameters have names that can be read.

Every piece of a clause begins with a bracket, a colon, a dash or a blank, or stands behind one, so
no piece can be taken for a part of what is in front of it.

## Main definitions

* `Pattern.Clean`: variables and parameters of a pattern can be read.
* `Clauses.used`: the parameters that clauses mention.
* `Clauses.Clean`: variables and parameters of clauses can be read.

## Main results

* `reads_pattern`: the placeholders of a pattern are its parameters.
* `Clauses.reads_write`: the placeholders of clauses are the parameters that they mention.
-/

namespace GraphMapping

open Identifier (quote labelFragment)

/-! ### Labels and fields -/

theorem apart_labelFragment (labels : List String) : Apart (labelFragment labels) := by
  cases labels with
  | nil => intro c hc; simp [labelFragment] at hc
  | cons label rest =>
    rw [labelFragment, String.append_assoc]
    exact Apart.append_of_ne (by decide) (by decide) _

/-- Labels contribute nothing, whatever they contain, because each of them stands in quotes of its
own. -/
theorem reads_labelFragment (labels : List String) : Reads (labelFragment labels) [] := by
  induction labels with
  | nil => exact Plain.reads (by decide)
  | cons label rest ih =>
    have hcolon : Plain ":" := by decide
    exact (hcolon.reads_append (reads_quote label)).append ih (apart_labelFragment rest)

theorem apart_writeFieldParams (fields : List FieldParam) : Apart (writeFieldParams fields) := by
  rw [writeFieldParams]
  split
  · intro c hc
    simp at hc
  · rw [String.append_assoc]
    exact Apart.append_of_ne (by decide) (by decide) _

theorem reads_writeFieldParams {fields : List FieldParam}
    (h : ∀ f ∈ fields, Names.IsParam f.2) :
    Reads (writeFieldParams fields) (fields.map Prod.snd) := by
  have hone : ∀ f ∈ fields,
      Reads (quote f.1 ++ ": $" ++ f.2) [f.2] := by
    rintro ⟨field, param⟩ hf
    have hcolon : Plain ": " := by decide
    have hvalue := (hcolon.reads_append (reads_param (h _ hf)))
    have hall := (reads_quote field).append hvalue (Apart.append_of_ne (by decide) (by decide) _)
    have hdollar : ": $" = ": " ++ "$" := by decide
    simp only [hdollar, String.append_assoc]
    exact hall
  have hcomma : Plain ", " ∧ Apart ", " ∧ ", " ≠ "" := by decide
  have hitems := (readsEach_map hone).intercalate hcomma
  rw [writeFieldParams]
  split
  · rename_i hnil
    rw [hnil]
    exact Plain.reads (by decide)
  · have hopen : Plain " \x7b" := by decide
    have hclose : Reads "\x7d" [] := Plain.reads (by decide)
    have hall := (hopen.reads_append hitems).append hclose (by decide)
    rwa [List.append_nil, ← List.map_eq_flatMap] at hall

/-! ### Patterns -/

/-- A variable with labels and fields between brackets contributes the parameters of the fields. -/
theorem reads_bracketed {opening closing name : String} (hopening : Plain opening)
    (hclosing : Plain closing) (hapart : Apart closing) (hname : Plain name) (labels : List String)
    {fields : List FieldParam} (h : ∀ f ∈ fields, Names.IsParam f.2) :
    Reads (opening ++ name ++ labelFragment labels ++ writeFieldParams fields ++ closing)
      (fields.map Prod.snd) := by
  have hlabels := (hopening.append hname).reads.append (reads_labelFragment labels)
    (apart_labelFragment labels)
  have hfields := hlabels.append (reads_writeFieldParams h) (apart_writeFieldParams fields)
  have hall := hfields.append hclosing.reads hapart
  rwa [List.append_nil] at hall

/-- Variables and parameters of the pattern can be read. -/
structure Pattern.Clean (p : Pattern) : Prop where
  names : ∀ name ∈ p.names, Plain name
  params : ∀ param ∈ p.params, Names.IsParam param

theorem reads_node {n : NodePattern} (h : (Pattern.node n).Clean) :
    Reads n.write (n.fields.map Prod.snd) :=
  reads_bracketed (by decide) (by decide) (by decide) (h.names n.name (List.mem_singleton_self _))
    n.labels fun f hf => h.params f.2 (List.mem_map_of_mem hf)

theorem apart_node (n : NodePattern) : Apart n.write := by
  rw [NodePattern.write, String.append_assoc, String.append_assoc, String.append_assoc]
  exact Apart.append_of_ne (by decide) (by decide) _

theorem reads_relationship {r : RelationshipPattern} (h : (Pattern.betweenAny r).Clean) :
    Reads r.write (r.fields.map Prod.snd) :=
  reads_bracketed (by decide) (by decide) (by decide) (h.names r.name (List.mem_singleton_self _))
    r.labels fun f hf => h.params f.2 (List.mem_map_of_mem hf)

theorem apart_relationship (r : RelationshipPattern) : Apart r.write := by
  rw [RelationshipPattern.write, String.append_assoc, String.append_assoc, String.append_assoc]
  exact Apart.append_of_ne (by decide) (by decide) _

/-- The placeholders of a pattern are its parameters. Labels and fields may contain dollar signs,
but they are quoted, and inside quotes the scanner reads nothing. -/
theorem reads_pattern {p : Pattern} (h : p.Clean) : Reads p.write p.params := by
  obtain ⟨hnames, hparams⟩ := h
  cases p with
  | node n => exact reads_node ⟨hnames, hparams⟩
  | path start relationship finish =>
    simp only [Pattern.names, List.forall_mem_cons] at hnames
    simp only [Pattern.params, List.mem_append, or_imp, forall_and] at hparams
    have hstart := reads_node (n := start)
      ⟨fun name hname => List.mem_singleton.mp hname ▸ hnames.1, hparams.1.1⟩
    have hrelationship := reads_relationship (r := relationship)
      ⟨fun name hname => List.mem_singleton.mp hname ▸ hnames.2.1, hparams.1.2⟩
    have hfinish := reads_node (n := finish)
      ⟨fun name hname => List.mem_singleton.mp hname ▸ hnames.2.2.1, hparams.2⟩
    have hdash : Reads "-" [] := Plain.reads (by decide)
    have harrow : Reads "->" [] := Plain.reads (by decide)
    have hleft := (hstart.append hdash (by decide)).append hrelationship
      (apart_relationship relationship)
    have hall := (hleft.append harrow (by decide)).append hfinish (apart_node finish)
    rwa [List.append_nil, List.append_nil] at hall
  | betweenAny relationship =>
    have hopening : Reads "()-" [] := Plain.reads (by decide)
    have hclosing : Reads "-()" [] := Plain.reads (by decide)
    have hall := (hopening.append (reads_relationship ⟨hnames, hparams⟩)
      (apart_relationship relationship)).append hclosing (by decide)
    rwa [List.append_nil] at hall

/-! ### Assignments and conditions -/

theorem reads_assignment {a : Assignment} (hname : Plain a.name)
    (hparam : ∀ param ∈ a.param, Names.IsParam param) : Reads a.write a.param.toList := by
  have hdot : Plain "." := by decide
  have hequals : Plain " = " := by decide
  have htarget := (hname.append hdot).reads_append (reads_quote a.field)
  have hvalue : Reads (a.param.elim "NULL" ("$" ++ ·)) a.param.toList := by
    cases hvalue : a.param with
    | none => exact Plain.reads (by decide)
    | some param => exact reads_param (hparam param hvalue)
  have hall := htarget.append (hequals.reads_append hvalue)
    (Apart.append_of_ne (by decide) (by decide) _)
  rwa [← String.append_assoc] at hall

theorem reads_condition {c : IdCondition} (hname : Plain c.name) (hparam : Names.IsParam c.param) :
    Reads c.write [c.param] := by
  have hopening : Plain "id(" := by decide
  have hequals : Plain ") = " := by decide
  have htext : c.write = "id(" ++ c.name ++ ") = " ++ ("$" ++ c.param) := by
    have hdollar : ") = $" = ") = " ++ "$" := by decide
    simp only [IdCondition.write, hdollar, String.append_assoc]
  rw [htext]
  exact ((hopening.append hname).append hequals).reads_append (reads_param hparam)

/-! ### Clauses -/

namespace Clauses

/-- The parameters that clauses mention, in the order of their text. -/
def used (clauses : Clauses) : List String :=
  (clauses.matched ++ clauses.created).flatMap Pattern.params ++
    clauses.assigned.flatMap (·.param.toList) ++ clauses.conditions.map (·.param)

/-- Variables and parameters of clauses can be read. -/
structure Clean (clauses : Clauses) : Prop where
  patterns : ∀ p ∈ clauses.matched ++ clauses.created, p.Clean
  assigned : ∀ a ∈ clauses.assigned, Plain a.name ∧ ∀ param ∈ a.param, Names.IsParam param
  conditions : ∀ c ∈ clauses.conditions, Plain c.name ∧ Names.IsParam c.param
  returned : ∀ name ∈ clauses.returned, Plain name

/-- A clause contributes what its items do. -/
theorem readsEach_part {keyword separator : String} (hkeyword : Plain keyword)
    (hseparator : Plain separator ∧ Apart separator ∧ separator ≠ "") {items ns : List String}
    (h : ReadsEach items ns) : ReadsEach (part keyword separator items) ns := by
  rw [part]
  split
  · rename_i hnil
    rwa [hnil] at h
  · have hblank : Plain " " := by decide
    have hclause := (hkeyword.append hblank).reads_append (h.intercalate hseparator)
    rw [← List.append_nil ns]
    exact ReadsEach.nil.cons hclause

/-- The placeholders of clauses are the parameters that they mention. -/
theorem reads_write {clauses : Clauses} (h : clauses.Clean) : Reads clauses.write clauses.used := by
  have hcomma : Plain ", " ∧ Apart ", " ∧ ", " ≠ "" := by decide
  have hmatched : ReadsEach (part "MATCH" ", " (clauses.matched.map Pattern.write))
      (clauses.matched.flatMap Pattern.params) :=
    readsEach_part (by decide) hcomma
      (readsEach_map fun p hp => reads_pattern (h.patterns p (List.mem_append_left _ hp)))
  have hcreated : ReadsEach (part "CREATE" ", " (clauses.created.map Pattern.write))
      (clauses.created.flatMap Pattern.params) :=
    readsEach_part (by decide) hcomma
      (readsEach_map fun p hp => reads_pattern (h.patterns p (List.mem_append_right _ hp)))
  have hassigned : ReadsEach (part "SET" ", " (clauses.assigned.map Assignment.write))
      (clauses.assigned.flatMap (·.param.toList)) :=
    readsEach_part (by decide) hcomma
      (readsEach_map fun a ha => reads_assignment (h.assigned a ha).1 (h.assigned a ha).2)
  have hconditions : ReadsEach (part "WHERE" " AND " (clauses.conditions.map IdCondition.write))
      (clauses.conditions.flatMap fun c => [c.param]) :=
    readsEach_part (by decide) (by decide)
      (readsEach_map fun c hc => reads_condition (h.conditions c hc).1 (h.conditions c hc).2)
  have hkeyword : Plain (if clauses.distinct then "RETURN DISTINCT" else "RETURN") := by
    split <;> decide
  have hreturned : ReadsEach
      (part (if clauses.distinct then "RETURN DISTINCT" else "RETURN") ", " clauses.returned) [] := by
    exact readsEach_part hkeyword hcomma (readsEach_of_plain h.returned)
  have hblank : Plain " " ∧ Apart " " ∧ " " ≠ "" := by decide
  have hall := ((((hmatched.append hcreated).append hassigned).append hconditions).append
    hreturned).intercalate hblank
  rwa [List.append_nil, ← List.flatMap_append, ← List.map_eq_flatMap] at hall

end Clauses

end GraphMapping
