import GraphMapping.Proofs.Statement.ClauseText
import GraphMapping.Statement.Traversal

/-!
# What a traversal contains

The text of a traversal is put together directly, without clauses. Its parameters are of three kinds,
told apart by how they begin: the id of the start is spelled after the variable of the start, the
properties of the relationships after a stem that is no variable, and the row counts have no
underscore.

## Main definitions

* `Traversal.counts`, `Traversal.bound`: the parameters of a traversal.
* `Traversal.Asks`: what is asked of the start.
* `Traversal.write`: the text of a traversal.
* `Traversal.statementFrom`: the statement, once it is settled how the start is asked for.

## Main results

* `Traversal.nodup_bound`: the parameters are all different.
* `Traversal.reads_write`: the placeholders of the text.
* `composeTraversal_eq`: the statement of a traversal.
-/

namespace GraphMapping

open Identifier (quote)

namespace Traversal

/-! ### Parameters -/

/-- The parameters of the row counts. -/
def counts (t : Traversal) : List (String × Value) :=
  t.skip.toList.map (fun n => ("skip", countParam n)) ++
    t.limit.toList.map fun n => ("limit", countParam n)

/-- All parameters: those of the start, of the properties, numbered from `n` on, and the row
counts. -/
def bound (t : Traversal) (asked : List (String × Value)) (n : Nat) : List (String × Value) :=
  asked ++ (numberFields "rel" n t.properties).map (fun b => (b.param, b.value)) ++ t.counts

/-- The properties of the relationships are numbered like the fields of an entity. -/
theorem bindProperties_eq (type : String) (names : Names) (params : Dict Value) {n : Nat}
    (hn : names.paramCount type = n) (properties : List (String × Value)) :
    ∃ names', bindProperties type names params properties =
      ((numberFields "rel" n properties).map (fun b => (b.field, b.param)), names',
        params.insertAll ((numberFields "rel" n properties).map fun b => (b.param, b.value))) := by
  induction properties generalizing names params n with
  | nil => exact ⟨names, rfl⟩
  | cons pair rest ih =>
    obtain ⟨field, value⟩ := pair
    have hnext := (names.handsOutParams_param "rel" type field).paramCount_self
    obtain ⟨names', heq⟩ := ih (names.param "rel" type field).2
      (params.insert (Names.paramName "rel" field n) value) (hnext.trans (congrArg (· + 1) hn))
    rw [Names.param_eq, hn] at heq
    refine ⟨names', ?_⟩
    rw [bindProperties, Names.param_eq, hn]
    simp only [heq]
    rfl

/-- The count of a cut is bound when it is asked for. -/
theorem cut_eq (keyword param : String) (count : Option UInt64) (params : Dict Value) :
    cut keyword param count params = ((cut keyword param count .empty).1,
      params.insertAll (count.toList.map fun n => (param, countParam n))) := by
  cases count <;> rfl

theorem isStem_rel : Names.IsStem "rel" := by decide

/-- The stem of the properties is no variable. -/
theorem variableName_ne_rel (kind : EntityKind) (i : Nat) : variableName kind i ≠ "rel" := by
  intro heq
  have hlist := congrArg String.toList heq
  rw [toList_variableName] at hlist
  have hdigits : Nat.toDigits 10 i = ['e', 'l'] := (List.cons.inj hlist).2
  have hmem : 'e' ∈ Nat.toDigits 10 i := by simp [hdigits]
  exact absurd (Nat.isDigit_of_mem_toDigits (by decide) (by decide) hmem) (by decide)

/-- The row counts have no underscore. -/
theorem nodup_counts (t : Traversal) : (t.counts.map Prod.fst).Nodup ∧
    ∀ param ∈ t.counts.map Prod.fst, Names.IsParam param ∧ '_' ∉ param.toList := by
  have hskip : Names.IsParam "skip" ∧ '_' ∉ "skip".toList := by decide
  have hlimit : Names.IsParam "limit" ∧ '_' ∉ "limit".toList := by decide
  rw [counts]
  cases t.skip <;> cases t.limit <;> simp [hskip, hlimit]

/-- At most the id of the start is asked for, with a parameter spelled after its variable. -/
structure Asks (name : String) (asked : List (String × Value)) : Prop where
  nodup : (asked.map Prod.fst).Nodup
  param : ∀ pair ∈ asked, ∃ k, pair.1 = Names.paramName name "id" k

variable {name : String} {asked : List (String × Value)} {names : Names}

theorem map_fst_bound (t : Traversal) (n : Nat) : (t.bound asked n).map Prod.fst =
    asked.map Prod.fst ++ (numberFields "rel" n t.properties).map (·.param) ++
      t.counts.map Prod.fst := by
  rw [bound, List.map_append, List.map_append, List.map_map]
  rfl

/-- Parameters that are spelled after a stem. -/
theorem exists_paramName (t : Traversal) (hissued : names.Issued name) (hasked : Asks name asked)
    {n : Nat} {param : String}
    (h : param ∈ asked.map Prod.fst ++ (numberFields "rel" n t.properties).map (·.param)) :
    ∃ stem field k, Names.IsStem stem ∧ param = Names.paramName stem field k := by
  rcases List.mem_append.mp h with h | h
  · obtain ⟨pair, hpair, rfl⟩ := List.mem_map.mp h
    obtain ⟨k, hk⟩ := hasked.param pair hpair
    exact ⟨name, "id", k, hissued.isStem, hk⟩
  · obtain ⟨b, hb, rfl⟩ := List.mem_map.mp h
    obtain ⟨k, -, -, hk⟩ := param_of_mem_numberFields hb
    exact ⟨"rel", b.field, k, isStem_rel, hk⟩

theorem isParam_of_mem_bound (t : Traversal) (hissued : names.Issued name)
    (hasked : Asks name asked) {n : Nat} {param : String}
    (h : param ∈ (t.bound asked n).map Prod.fst) : Names.IsParam param := by
  rw [map_fst_bound] at h
  rcases List.mem_append.mp h with h | h
  · obtain ⟨stem, field, k, hstem, rfl⟩ := t.exists_paramName hissued hasked h
    exact Names.isParam_paramName hstem
  · exact (t.nodup_counts.2 param h).1

theorem nodup_bound (t : Traversal) (hissued : names.Issued name) (hasked : Asks name asked)
    (n : Nat) : ((t.bound asked n).map Prod.fst).Nodup := by
  rw [map_fst_bound]
  refine List.nodup_append.mpr ⟨List.nodup_append.mpr
    ⟨hasked.nodup, nodup_numberFields isStem_rel _ _, ?_⟩, t.nodup_counts.1, ?_⟩
  · rintro a ha b hb rfl
    obtain ⟨pair, hpair, rfl⟩ := List.mem_map.mp ha
    obtain ⟨k, hk⟩ := hasked.param pair hpair
    obtain ⟨field, hfield, heq⟩ := List.mem_map.mp hb
    obtain ⟨k', -, -, hk'⟩ := param_of_mem_numberFields hfield
    have hsame := hk.symm.trans (heq.symm.trans hk')
    obtain ⟨kind, i, -, rfl⟩ := hissued
    exact variableName_ne_rel kind i
      (Names.paramName_inj (Names.isStem_variableName kind i) isStem_rel hsame).1
  · rintro a ha b hb rfl
    obtain ⟨stem, field, k, hstem, rfl⟩ := t.exists_paramName hissued hasked ha
    exact (t.nodup_counts.2 _ hb).2 (Names.underscore_mem_paramName hstem)

/-! ### Text -/

/-- A cut has one placeholder when it is asked for. -/
theorem reads_cut {keyword param : String} (hkeyword : Plain keyword) (hparam : Names.IsParam param)
    (count : Option UInt64) (params : Dict Value) :
    Reads (cut keyword param count params).1 (count.toList.map fun _ => param) := by
  cases count with
  | none =>
    have hnothing : Plain "" := by decide
    exact hnothing.reads
  | some n =>
    have hblank : Plain " " := by decide
    have hdollar : " $" = " " ++ "$" := by decide
    have hall := ((hblank.append hkeyword).append hblank).reads_append (reads_param hparam)
    simp only [cut, hdollar, String.append_assoc] at hall ⊢
    exact hall

theorem apart_cut (keyword param : String) (count : Option UInt64) (params : Dict Value) :
    Apart (cut keyword param count params).1 := by
  cases count with
  | none => exact fun c hc => absurd hc (by simp [cut])
  | some n =>
    rw [cut, String.append_assoc, String.append_assoc]
    exact Apart.append_of_ne (by decide) (by decide) _

/-- A relationship that is followed has the placeholders of its properties. -/
theorem reads_writeRelationship (t : Traversal) {fields : List FieldParam}
    (h : ∀ f ∈ fields, Names.IsParam f.2) :
    Reads (t.writeRelationship fields) (fields.map Prod.snd) ∧
      Apart (t.writeRelationship fields) := by
  have hopening : Plain "[:" := by decide
  have hclosing : Reads "]" [] := Plain.reads (by decide)
  have hinner := ((hopening.reads_append (reads_quote t.type)).append (reads_writeFieldParams h)
    (apart_writeFieldParams fields)).append hclosing (by decide)
  have haround : ∀ left right : String, Plain left ∧ Apart left ∧ left ≠ "" →
      Plain right ∧ Apart right → ∀ inner, Reads inner (fields.map Prod.snd) →
        Reads (left ++ inner ++ right) (fields.map Prod.snd) ∧ Apart (left ++ inner ++ right) := by
    rintro left right ⟨hleft, hapart, hne⟩ ⟨hright, hapart'⟩ inner hinner
    have hall := (hleft.reads_append hinner).append hright.reads hapart'
    rw [List.append_nil] at hall
    rw [String.append_assoc] at hall ⊢
    exact ⟨hall, hapart.append_of_ne hne _⟩
  rw [List.append_nil] at hinner
  rw [writeRelationship]
  cases t.direction with
  | out => exact haround "-" "->" (by decide) (by decide) _ hinner
  | into => exact haround "<-" "-" (by decide) (by decide) _ hinner
  | both => exact haround "-" "-" (by decide) (by decide) _ hinner

/-- The text of a traversal, from its pieces. -/
def write (t : Traversal) (start : NodePattern) (fields : List FieldParam) (condition : String)
    (other : String) : String :=
  "MATCH " ++ start.write ++ t.writeRelationship fields ++
    (NodePattern.mk other t.endLabels []).write ++ condition ++ " RETURN " ++ other ++
    (cut "SKIP" "skip" t.skip .empty).1 ++ (cut "LIMIT" "limit" t.limit .empty).1

/-- The placeholders of a traversal, from those of its pieces. -/
theorem reads_write (t : Traversal) {start : NodePattern} (hstart : Reads start.write [])
    {fields : List FieldParam} (hfields : ∀ f ∈ fields, Names.IsParam f.2) {condition : String}
    {params : List String} (hcondition : Reads condition params) (hapart : Apart condition)
    {other : String} (hother : Plain other) :
    Reads (t.write start fields condition other)
      (fields.map Prod.snd ++ params ++ t.counts.map Prod.fst) := by
  have hmatch : Plain "MATCH " := by decide
  have hreturn : Plain " RETURN " := by decide
  have hend : Reads (NodePattern.mk other t.endLabels []).write [] :=
    reads_node ⟨by simpa [Pattern.names] using hother, by simp [Pattern.params]⟩
  obtain ⟨hrelationship, hrelationshipApart⟩ := t.reads_writeRelationship hfields
  have hpath := ((hmatch.reads_append hstart).append hrelationship hrelationshipApart).append hend
    (apart_node _)
  have hskip : Reads (cut "SKIP" "skip" t.skip .empty).1 (t.skip.toList.map fun _ => "skip") :=
    reads_cut (by decide) (by decide) t.skip .empty
  have hlimit : Reads (cut "LIMIT" "limit" t.limit .empty).1 (t.limit.toList.map fun _ => "limit") :=
    reads_cut (by decide) (by decide) t.limit .empty
  have hreturned := (hpath.append hcondition hapart).append (hreturn.append hother).reads
    (Apart.append_of_ne (by decide) (by decide) _)
  have hall := (hreturned.append hskip (apart_cut _ _ _ _)).append hlimit (apart_cut _ _ _ _)
  have hcounts : t.counts.map Prod.fst =
      t.skip.toList.map (fun _ => "skip") ++ t.limit.toList.map fun _ => "limit" := by
    simp [counts, Function.comp_def]
  rw [List.nil_append, List.append_nil, List.append_nil] at hall
  rw [hcounts, ← List.append_assoc]
  rw [← String.append_assoc] at hall
  exact hall

end Traversal

/-! ### The statement -/

namespace Traversal

/-- The statement, once its pieces are settled. -/
def statement (t : Traversal) (start : NodePattern) (fields : List FieldParam)
    (condition other skip limit : String) (params : Dict Value) : Statement :=
  ⟨"MATCH " ++ start.write ++ t.writeRelationship fields ++
      (NodePattern.mk other t.endLabels []).write ++ condition ++ " RETURN " ++ other ++ skip ++ limit,
    params, [other]⟩

/-- The statement, once it is settled how the start is asked for, and the names afterwards. -/
def statementFrom (t : Traversal) (names : Names) (params : Dict Value) (start : NodePattern)
    (condition other : String) : Statement × Names :=
  let (fields, names, params) := bindProperties t.type names params t.properties
  let (skip, params) := cut "SKIP" "skip" t.skip params
  let (limit, params) := cut "LIMIT" "limit" t.limit params
  (t.statement start fields condition other skip limit params, names)

/-- The pieces that are not settled by the start. -/
theorem statementFrom_eq (t : Traversal) (names : Names) (asked : List (String × Value))
    (start : NodePattern) (condition other : String) :
    ∃ names', t.statementFrom names (Dict.empty.insertAll asked) start condition other =
      (⟨t.write start ((numberFields "rel" (names.paramCount t.type) t.properties).map
          fun b => (b.field, b.param)) condition other,
        Dict.empty.insertAll (t.bound asked (names.paramCount t.type)), [other]⟩, names') := by
  obtain ⟨names', hbind⟩ := bindProperties_eq t.type names (Dict.empty.insertAll asked) rfl
    t.properties
  refine ⟨names', ?_⟩
  have hparams : ((((Dict.empty : Dict Value).insertAll asked).insertAll
      ((numberFields "rel" (names.paramCount t.type) t.properties).map fun b =>
        (b.param, b.value))).insertAll
          (t.skip.toList.map fun n => ("skip", countParam n))).insertAll
            (t.limit.toList.map fun n => ("limit", countParam n)) =
      Dict.empty.insertAll (t.bound asked (names.paramCount t.type)) := by
    rw [bound, counts, Dict.insertAll_append, Dict.insertAll_append, Dict.insertAll_append]
  rw [← hparams]
  simp only [statementFrom, hbind]
  rw [cut_eq "SKIP", cut_eq "LIMIT"]
  rfl

/-- The start is asked for by its labels while it has no id. -/
def startPattern (name : String) (e : Entity) : NodePattern :=
  ⟨name, if e.id.isSome then [] else e.labels, []⟩

/-- The start is asked for by its id once it has one. -/
def startCondition (name param : String) (e : Entity) : String :=
  if e.id.isSome then " WHERE " ++ (IdCondition.mk name param).write else ""

/-- The parameter of the id of the start. -/
def startParams (param : String) (e : Entity) : List (String × Value) :=
  e.id.toList.map fun id => (param, .integer id)

theorem asks_startParams (name : String) (k : Nat) (e : Entity) :
    Asks name (startParams (Names.paramName name "id" k) e) := by
  rw [startParams]
  refine ⟨by cases e.id <;> simp, fun pair hpair => ?_⟩
  obtain ⟨id, -, rfl⟩ := List.mem_map.mp hpair
  exact ⟨k, rfl⟩

theorem reads_startPattern {name : String} (hname : Plain name) (e : Entity) :
    Reads (startPattern name e).write [] :=
  reads_node ⟨by simpa [Pattern.names, startPattern] using hname, by
    simp [Pattern.params, startPattern]⟩

theorem reads_startCondition {name param : String} (hname : Plain name)
    (hparam : Names.IsParam param) (e : Entity) :
    Reads (startCondition name param e) ((startParams param e).map Prod.fst) ∧
      Apart (startCondition name param e) := by
  have hwhere : Plain " WHERE " := by decide
  rw [startCondition, startParams]
  cases e.id with
  | none =>
    have hnothing : Plain "" ∧ Apart "" := by decide
    exact ⟨hnothing.1.reads, hnothing.2⟩
  | some id =>
    exact ⟨hwhere.reads_append (reads_condition hname hparam),
      Apart.append_of_ne (by decide) (by decide) _⟩

end Traversal

section Start

variable {store : Store} {names names₁ : Names} {start : EntityKey} {e : Entity} {name : String}

theorem composeTraversal_of_id (he : store.get? start = some e) (hnode : e.isRelationship = false)
    (hdefine : names.define e = (name, e.bindVariable name, names₁)) {id : Int64}
    (hid : e.id = some id) {param : String} {names₂ names₃ : Names}
    (hparam : names₁.paramFor (e.bindVariable name) "id" = (param, names₂)) {t : Traversal}
    {other : String} {statement : Statement}
    (hstatement : t.statementFrom names₂ (Dict.empty.insert param (.integer id)) ⟨name, [], []⟩
      (" WHERE " ++ (IdCondition.mk name param).write) other = (statement, names₃)) :
    composeTraversal store names start t other =
      ⟨.ok statement, store.modify start fun _ => e.bindVariable name, names₃⟩ := by
  have hbound : (e.bindVariable name).id = some id := hid
  obtain ⟨rfl, rfl⟩ := Prod.mk.inj hstatement
  rw [composeTraversal, he]
  simp only [hnode, hdefine, hbound, hparam]
  rfl

theorem composeTraversal_of_no_id (he : store.get? start = some e)
    (hnode : e.isRelationship = false)
    (hdefine : names.define e = (name, e.bindVariable name, names₁)) (hid : e.id = none)
    {t : Traversal} {other : String} {statement : Statement} {names₂ : Names}
    (hstatement : t.statementFrom names₁ .empty ⟨name, e.labels, []⟩ "" other =
      (statement, names₂)) :
    composeTraversal store names start t other =
      ⟨.ok statement, store.modify start fun _ => e.bindVariable name, names₂⟩ := by
  have hbound : (e.bindVariable name).id = none := hid
  obtain ⟨rfl, rfl⟩ := Prod.mk.inj hstatement
  rw [composeTraversal, he]
  simp only [hnode, hdefine, hbound]
  rfl

end Start

/-- The statement of a traversal from a stored node. -/
theorem composeTraversal_eq {store : Store} {names names₁ : Names} {start : EntityKey} {e : Entity}
    {name : String} (he : store.get? start = some e) (hnode : e.isRelationship = false)
    (hdefine : names.define e = (name, e.bindVariable name, names₁)) (t : Traversal)
    (other : String) :
    ∃ k n names', composeTraversal store names start t other =
      ⟨.ok ⟨t.write (Traversal.startPattern name e)
          ((numberFields "rel" n t.properties).map fun b => (b.field, b.param))
          (Traversal.startCondition name (Names.paramName name "id" k) e) other,
        Dict.empty.insertAll (t.bound (Traversal.startParams (Names.paramName name "id" k) e) n),
        [other]⟩, store.modify start fun _ => e.bindVariable name, names'⟩ := by
  cases hid : e.id with
  | none =>
    obtain ⟨names', hstatement⟩ := t.statementFrom_eq names₁ [] ⟨name, e.labels, []⟩ "" other
    refine ⟨0, names₁.paramCount t.type, names', ?_⟩
    simp only [Traversal.startPattern, Traversal.startCondition, Traversal.startParams, hid]
    exact composeTraversal_of_no_id he hnode hdefine hid hstatement
  | some id =>
    obtain ⟨param, names₂, hparam⟩ : ∃ param names₂,
        names₁.paramFor (e.bindVariable name) "id" = (param, names₂) := ⟨_, _, rfl⟩
    have hspelled : Names.paramName name "id" (names₁.paramCount e.typeName) = param :=
      congrArg Prod.fst hparam
    obtain ⟨names', hstatement⟩ := t.statementFrom_eq names₂ [(param, .integer id)]
      ⟨name, [], []⟩ (" WHERE " ++ (IdCondition.mk name param).write) other
    refine ⟨names₁.paramCount e.typeName, names₂.paramCount t.type, names', ?_⟩
    simp only [Traversal.startPattern, Traversal.startCondition, Traversal.startParams, hid,
      hspelled]
    exact composeTraversal_of_id he hnode hdefine hid hparam hstatement

end GraphMapping
