import Mathlib.Data.List.Perm.Basic
import GraphMapping.Proofs.Statement.ClauseText
import GraphMapping.Proofs.Statement.DeleteBatch
import GraphMapping.Proofs.Statement.SaveBatch
import GraphMapping.Proofs.Statement.TraversalText
import GraphMapping.Statement.Lookup

/-!
# Placeholders and parameters agree

A statement is sent as a text with placeholders together with the values of its parameters. Labels,
types and field names are part of the text and may contain anything. Still the placeholders that the
database reads in the text are exactly the parameters: quoting keeps what is between quotes from
being read, and a parameter name is made of plain characters only, whatever field it is for.

The text of a save, of a delete and of a look-up is read clause by clause, and what clauses mention is
what their parts have parameters for. A traversal has parameters of three kinds, the id of its start,
the properties of its relationships and two row counts, which are told apart by how they begin.

## Main definitions

* `Statement.PlaceholdersAgree`: the placeholders of the text are the parameters.

## Main results

* `Draft.Writes.used_perm`: what a save mentions are its parameters.
* `placeholdersAgree_of_namedBy`: placeholders and parameters agree in all composed statements.
-/

namespace GraphMapping

open Identifier (quote labelFragment isPart)

/-- The quoted identifiers of the text are closed. The placeholders outside of them are all
different, they consist of plain characters, and they are the parameters. -/
def Statement.PlaceholdersAgree (statement : Statement) : Prop :=
  ∃ names, placeholders? statement.text = some names ∧ names.Nodup ∧
    (∀ name ∈ names, Names.IsParam name) ∧ ∀ name, name ∈ names ↔ name ∈ statement.params.names

/-- Text that mentions every parameter once agrees with the parameters. All four kinds of statement
come down to this: what the scanner reads in the text is a permutation of the names that are bound.
-/
theorem Statement.placeholdersAgree_of_reads {statement : Statement} {names : List String}
    (h : Reads statement.text names) (hperm : names.Perm statement.params.names)
    (hparam : ∀ name ∈ names, Names.IsParam name) : statement.PlaceholdersAgree :=
  ⟨names, h.placeholders?_eq, hperm.nodup_iff.mpr statement.params.nodup_names, hparam,
    fun _ => hperm.mem_iff⟩

theorem Clauses.Clean.isParam {clauses : Clauses} (h : clauses.Clean) {param : String}
    (hparam : param ∈ clauses.used) : Names.IsParam param := by
  simp only [used, List.mem_append, List.mem_flatMap, List.mem_map, Option.mem_toList] at hparam
  rcases hparam with (⟨p, hp, hmem⟩ | ⟨a, ha, hmem⟩) | ⟨c, hc, rfl⟩
  · exact (h.patterns p (List.mem_append.mpr hp)).params param hmem
  · exact (h.assigned a ha).2 param hmem
  · exact (h.conditions c hc).2

/-- Clauses that mention every parameter once agree with the parameters. -/
theorem Clauses.placeholdersAgree {clauses : Clauses} (h : clauses.Clean)
    (hperm : clauses.used.Perm clauses.params.names) : clauses.toStatement.PlaceholdersAgree :=
  Statement.placeholdersAgree_of_reads (reads_write h) hperm fun _ => h.isParam

/-! ### Saving -/

namespace Part

variable (m : Moment) (store : Store)

/-- The parameters of a new entity stand inside a pattern. -/
def written (part : Part) : List String :=
  if (part.mention.identity? store).isNone then (part.fieldParams m store).map Prod.snd else []

/-- All parameters of a part are mentioned: inside a pattern, or in assignments and a condition. -/
theorem used_eq (part : Part) :
    part.written m store ++ ((part.assigned m store).flatMap (·.param.toList) ++
      (part.conditions m store).map (·.param)) = (part.params m store).map Prod.fst := by
  have hfields : (part.params m store).map Prod.fst = (part.fields m store).map (·.param) ++
      (part.mention.identity? store).toList.map fun _ => part.idParam m store := by
    rw [params, List.map_append, List.map_map, List.map_map]
    rfl
  rw [hfields, written, assigned, conditions]
  cases part.mention.identity? store with
  | none => simp [fieldParams, Function.comp_def]
  | some id =>
    simp [List.flatMap_append, List.flatMap_map, ← List.map_eq_flatMap]

variable {m store} {parts added : List Part} {x : Endpoint} {n : NodePattern}

/-- Known nodes are matched by their variables. -/
theorem params_matched (parts : List Part) :
    (parts.flatMap (matched store)).flatMap Pattern.params = [] := by
  refine List.flatMap_eq_nil_iff.mpr fun pattern hpattern => ?_
  obtain ⟨p, -, -, rfl⟩ := exists_of_mem_matched hpattern
  rfl

/-- New nodes are created with their fields. -/
theorem params_created (parts : List Part) :
    (parts.flatMap (created m store)).flatMap Pattern.params = parts.flatMap (written m store) := by
  rw [List.flatMap_assoc]
  refine List.flatMap_congr fun p _ => ?_
  rw [created, written]
  split
  · rw [List.flatMap_singleton]
    rfl
  · rfl

/-- A mention has the fields of the part that is added for it. -/
theorem Mentions.params_eq (h : Mentions m store parts x added n) :
    n.fields.map Prod.snd = added.flatMap (written m store) := by
  cases h with
  | again => rfl
  | first =>
    rw [List.flatMap_singleton, asEnd, written]
    split <;> rfl

/-- A path has the fields of the parts that are added for it. -/
theorem params_path (part : Part) {y : Endpoint} {addedFinish : List Part}
    {start finish : NodePattern} (hstart : Mentions m store parts x added start)
    (hfinish : Mentions m store (parts ++ added) y addedFinish finish) :
    ((part.path m store start finish).params).Perm
      ((added ++ addedFinish ++ [part]).flatMap (written m store)) := by
  have hpart : (if (part.mention.identity? store).isNone then part.fieldParams m store else []).map
      Prod.snd = part.written m store := by
    rw [written]
    split <;> rfl
  rw [path, Pattern.params, hstart.params_eq, hfinish.params_eq, hpart, List.flatMap_append,
    List.flatMap_append, List.flatMap_singleton, List.append_assoc, List.append_assoc]
  exact List.perm_append_comm.append_left _

end Part

/-- The patterns of a batch mention the parameters of its new entities. -/
theorem Drawn.params_perm {m : Moment} {store : Store} {keys : List EntityKey} {parts : List Part}
    {matched created : List Pattern} (h : Drawn m store keys parts matched created) :
    ((matched ++ created).flatMap Pattern.params).Perm (parts.flatMap (Part.written m store)) := by
  induction h with
  | nothing => exact .refl _
  | again h hkey ih => exact ih
  | @node keys parts matched created key e added p h he hnode hadded ih =>
    simp only [List.flatMap_append, Part.params_matched, Part.params_created, List.append_nil]
    rw [← List.append_assoc, ← List.flatMap_append]
    exact ih.append_right _
  | @relationship keys parts matched created key e start finish addedStart addedFinish pStart pFinish
      part h he hrel hstart hfinish hdrawStart hdrawFinish hpart hnew ih =>
    have hpath := Part.params_path part hdrawStart hdrawFinish
    have hall := ih.append hpath
    rw [← List.flatMap_append, ← List.append_assoc, ← List.append_assoc] at hall
    refine List.Perm.trans ?_ hall
    rw [List.flatMap_append, List.flatMap_append] at *
    split
    · simp [Part.params_matched]
    · simp only [List.flatMap_append, Part.params_matched, List.append_nil, List.append_assoc,
        List.flatMap_singleton]
      exact List.perm_append_comm.append_left _

namespace Draft.Writes

variable {m : Moment} {store : Store} {names : Names} {keys : List EntityKey} {parts : List Part}
  {d : Draft} (h : Writes m store names keys parts d)

include h

/-- What a save mentions are its parameters. Each is mentioned once: no value is bound that the text
does not ask for, and the text asks for none that is not bound. -/
theorem used_perm : d.clauses.used.Perm d.clauses.params.names := by
  have hparams : d.clauses.params.names.Perm
      (parts.flatMap fun p => (p.params m store).map Prod.fst) := by
    rw [← List.map_flatMap]
    exact h.follows.params.map Prod.fst
  have hused : d.clauses.used.Perm (parts.flatMap (Part.written m store) ++
      (parts.flatMap (fun p => (p.assigned m store).flatMap (·.param.toList)) ++
        parts.flatMap fun p => (p.conditions m store).map (·.param))) := by
    rw [Clauses.used, h.follows.assigned, h.follows.conditions, List.flatMap_assoc, List.map_flatMap,
      List.append_assoc]
    exact h.drawn.params_perm.append_right _
  have hparts : (parts.flatMap fun p => (p.params m store).map Prod.fst) =
      parts.flatMap fun p => p.written m store ++ ((p.assigned m store).flatMap (·.param.toList) ++
        (p.conditions m store).map (·.param)) :=
    List.flatMap_congr fun p _ => (p.used_eq m store).symm
  rw [hparts] at hparams
  refine (hused.trans ?_).trans hparams.symm
  exact ((List.flatMap_append_perm parts _ _).append_left _).trans (List.flatMap_append_perm parts _ _)

theorem isStem {p : Part} (hp : p ∈ parts) : Names.IsStem p.name :=
  (h.follows.issued hp).isStem

theorem isParam {param : String} (hparam : param ∈ d.clauses.used) : Names.IsParam param := by
  obtain ⟨pair, hpair, rfl⟩ := List.mem_map.mp (h.used_perm.mem_iff.mp hparam)
  obtain ⟨p, hp, hmem⟩ := List.mem_flatMap.mp (h.follows.params.mem_iff.mp hpair)
  obtain ⟨field, n, -, -, hname⟩ := Part.param_of_mem hmem
  rw [hname]
  exact Names.isParam_paramName (h.isStem hp)

theorem clean : d.clauses.Clean := by
  have hpart : ∀ {p : Part}, p ∈ parts → Plain p.name := fun hp => plain_of_isStem (h.isStem hp)
  constructor
  case patterns =>
    intro pattern hpattern
    constructor
    · intro name hname
      obtain ⟨p, hp, rfl⟩ := h.drawn.exists_part hpattern hname
      exact hpart hp
    · intro param hparam
      refine h.isParam (List.mem_append_left _ (List.mem_append_left _ ?_))
      exact List.mem_flatMap.mpr ⟨pattern, hpattern, hparam⟩
  case assigned =>
    intro a ha
    constructor
    · rw [h.follows.assigned] at ha
      obtain ⟨p, hp, hpa⟩ := List.mem_flatMap.mp ha
      rw [Part.name_of_mem_assigned hpa]
      exact hpart hp
    · intro param hparam
      refine h.isParam (List.mem_append_left _ (List.mem_append_right _ ?_))
      exact List.mem_flatMap.mpr ⟨a, ha, Option.mem_toList.mpr hparam⟩
  case conditions =>
    intro c hc
    constructor
    · rw [h.follows.conditions] at hc
      obtain ⟨p, hp, hpc⟩ := List.mem_flatMap.mp hc
      rw [Part.name_of_mem_conditions hpc]
      exact hpart hp
    · exact h.isParam (List.mem_append_right _ (List.mem_map_of_mem hc))
  case returned =>
    intro name hname
    rw [h.follows.returned] at hname
    obtain ⟨p, hp, rfl⟩ := List.mem_map.mp ((Part.returned_sublist parts).mem hname)
    exact hpart hp

end Draft.Writes

/-- The statement of a batch has the placeholders that are bound, each of them once. The values are
in the parameters only, so none of them can be read as a placeholder. -/
theorem placeholdersAgree_composeSave {m : Moment} {store : Store} {names : Names}
    {keys : List EntityKey} (hnamed : store.NamedBy names) {statement : Statement}
    (hs : (composeSave m store names keys).outcome = .ok statement) :
    statement.PlaceholdersAgree := by
  cases hcheck : Batch.check store keys with
  | error err => simp [composeSave, hcheck] at hs
  | ok u =>
    obtain ⟨parts, h⟩ := Batch.exists_writes (m := m) hnamed hcheck
    rw [Batch.composeSave_eq hcheck] at hs
    obtain rfl := Except.ok.inj hs
    exact Clauses.placeholdersAgree h.clean h.used_perm

/-! ### Deleting -/

namespace Deletion.Collects

variable {store₀ store : Store} {names₀ names : Names} {deletion : Deletion}
  (h : deletion.Collects store₀ names₀ store names)

include h

theorem isStem {t : Pattern × IdCondition} (ht : t ∈ deletion.targets) : Names.IsStem t.2.name := by
  obtain ⟨key, n, hname, -⟩ := h.target t ht
  exact (h.named.issued key _ hname).isStem

theorem isParam {t : Pattern × IdCondition} (ht : t ∈ deletion.targets) :
    Names.IsParam t.2.param := by
  obtain ⟨key, n, -, -, -, hparam⟩ := h.target t ht
  rw [hparam]
  exact Names.isParam_paramName (h.isStem ht)

/-- The placeholders of a deletion are the parameters of its targets. -/
theorem reads_write : Reads deletion.write (deletion.targets.map (·.2.param)) := by
  have hmatch : Plain "MATCH " := by decide
  have hwhere : Plain " WHERE " := by decide
  have hone : ∀ t ∈ deletion.targets,
      Reads ("MATCH " ++ t.1.write ++ " WHERE " ++ t.2.write) [t.2.param] := by
    rintro ⟨pattern, condition⟩ ht
    obtain ⟨hnames, hparams⟩ := h.pattern _ ht
    have hname : Plain condition.name := plain_of_isStem (h.isStem ht)
    have hpattern : pattern.Clean :=
      ⟨by simpa [hnames] using hname, fun param hparam => by simp [hparams] at hparam⟩
    have hcondition := hwhere.reads_append (reads_condition hname (h.isParam ht))
    have hall := (hmatch.reads_append (reads_pattern hpattern)).append hcondition
      (Apart.append_of_ne (by decide) (by decide) _)
    rw [hparams, ← String.append_assoc] at hall
    exact hall
  have hblank : Plain " " ∧ Apart " " ∧ " " ≠ "" := by decide
  have hcomma : Plain ", " ∧ Apart ", " ∧ ", " ≠ "" := by decide
  have htargets := (readsEach_map hone).intercalate hblank
  have hnames : ReadsEach (deletion.targets.map fun t => t.2.name) [] := by
    refine readsEach_of_plain fun text htext => ?_
    obtain ⟨t, ht, rfl⟩ := List.mem_map.mp htext
    exact plain_of_isStem (h.isStem ht)
  have hdelete : Plain (if deletion.hasNode then " DETACH DELETE " else " DELETE ") := by
    split <;> decide
  have hapart : Apart ((if deletion.hasNode then " DETACH DELETE " else " DELETE ") ++
      ", ".intercalate (deletion.targets.map fun t => t.2.name)) := by
    split <;> exact Apart.append_of_ne (by decide) (by decide) _
  have hall := htargets.append (hdelete.reads_append (hnames.intercalate hcomma)) hapart
  rwa [List.append_nil, ← List.map_eq_flatMap, ← String.append_assoc] at hall

end Deletion.Collects

theorem placeholdersAgree_composeDelete {store : Store} {names : Names} {keys : List EntityKey}
    {detach : Bool} (hnamed : store.NamedBy names) {statement : Statement}
    (hs : (composeDelete store names keys detach).outcome = .ok (some statement)) :
    statement.PlaceholdersAgree := by
  obtain ⟨deletion, h, hdeletion⟩ := collectDeletion_collects (.start hnamed) keys
  rw [composeDelete] at hs
  cases hcollect : (collectDeletion store names {} keys).outcome with
  | error err => simp [hcollect, Except.map] at hs
  | ok collected =>
    obtain rfl := hdeletion collected hcollect
    rw [hcollect, Except.map, Except.ok.injEq, Deletion.toStatement?] at hs
    split at hs
    · cases hs
    · obtain rfl := Option.some.inj hs
      refine Statement.placeholdersAgree_of_reads h.reads_write h.params.symm fun param hparam => ?_
      obtain ⟨t, ht, rfl⟩ := List.mem_map.mp hparam
      exact h.isParam ht

/-! ### Looking up -/

theorem placeholdersAgree_composeLookup {store : Store} {names : Names} {key : EntityKey}
    (hnamed : store.NamedBy names) {statement : Statement}
    (hs : (composeLookup store names key).outcome = .ok statement) :
    statement.PlaceholdersAgree := by
  rw [composeLookup] at hs
  cases he : store.get? key with
  | none => simp [he] at hs
  | some e =>
    obtain ⟨name, names₁, hdefine⟩ := names.exists_define e
    have hstem : Names.IsStem name := by
      have hname : (store.modify key fun _ => e.bindVariable name).nameOf? key = some name :=
        Store.nameOf?_modify_self he _
      exact ((hnamed.define he hdefine).issued key name hname).isStem
    cases hid : (e.bindVariable name).id with
    | none => simp [he, hdefine, hid] at hs
    | some id =>
      simp only [he, hdefine, hid] at hs
      obtain rfl := Except.ok.inj hs
      have hparam : Names.IsParam (names₁.paramFor (e.bindVariable name) "id").1 :=
        Names.isParam_paramName hstem
      generalize (names₁.paramFor (e.bindVariable name) "id").1 = param at hparam
      have hpattern : ∀ p ∈ (lookupClauses name param (e.bindVariable name) id).matched,
          p.names = [name] ∧ p.params = [] := by
        intro p hp
        obtain rfl := List.mem_singleton.mp hp
        split <;> exact ⟨rfl, rfl⟩
      refine Clauses.placeholdersAgree ⟨fun p hp => ?_, ?_, ?_, ?_⟩ ?_
      · obtain ⟨hnames, hparams⟩ := hpattern p (by simpa [lookupClauses] using hp)
        exact ⟨by simpa [hnames] using plain_of_isStem hstem, by simp [hparams]⟩
      · simp [lookupClauses]
      · simpa [lookupClauses] using ⟨plain_of_isStem hstem, hparam⟩
      · simpa [lookupClauses] using plain_of_isStem hstem
      · have hnone := List.flatMap_eq_nil_iff.mpr fun p hp => (hpattern p hp).2
        rw [Clauses.used, List.flatMap_append, hnone]
        exact .refl _

/-! ### Traversing -/

theorem placeholdersAgree_composeTraversal {store : Store} {names : Names} {start : EntityKey}
    {t : Traversal} {other : String} (hnamed : store.NamedBy names) (hother : Plain other)
    {statement : Statement}
    (hs : (composeTraversal store names start t other).outcome = .ok statement) :
    statement.PlaceholdersAgree := by
  cases he : store.get? start with
  | none => simp [composeTraversal, he] at hs
  | some e =>
    cases hrel : e.isRelationship with
    | true => simp [composeTraversal, he, hrel] at hs
    | false =>
      obtain ⟨name, names₁, hdefine⟩ := names.exists_define e
      have hissued : names₁.Issued name :=
        (hnamed.define he hdefine).issued start name (Store.nameOf?_modify_self he _)
      obtain ⟨k, n, names', heq⟩ := composeTraversal_eq he hrel hdefine t other
      rw [heq] at hs
      obtain rfl := Except.ok.inj hs
      have hname := plain_of_isStem hissued.isStem
      have hasked := Traversal.asks_startParams name k e
      obtain ⟨hcondition, hapart⟩ :=
        Traversal.reads_startCondition hname (Names.isParam_paramName hissued.isStem) e
      have hfields : ∀ f ∈ (numberFields "rel" n t.properties).map fun b => (b.field, b.param),
          Names.IsParam f.2 := by
        intro f hf
        obtain ⟨b, hb, rfl⟩ := List.mem_map.mp hf
        obtain ⟨i, -, -, hparam⟩ := param_of_mem_numberFields hb
        rw [hparam]
        exact Names.isParam_paramName Traversal.isStem_rel
      have hreads := t.reads_write (Traversal.reads_startPattern hname e) hfields hcondition hapart
        hother
      have hbound := (Dict.toList_insertAll_perm (d := (.empty : Dict Value))
        (t.nodup_bound hissued hasked n)
        fun pair hpair entry hentry => absurd hentry List.not_mem_nil).map Prod.fst
      rw [Dict.toList_empty, List.nil_append, Traversal.map_fst_bound] at hbound
      have hperm := (List.perm_append_comm.append_right (t.counts.map Prod.fst)).trans hbound.symm
      rw [List.map_map] at hreads
      refine Statement.placeholdersAgree_of_reads hreads hperm fun param hparam => ?_
      have hmem := hbound.mem_iff.mp (hperm.mem_iff.mp hparam)
      rw [← Traversal.map_fst_bound] at hmem
      exact t.isParam_of_mem_bound hissued hasked hmem

/-- **Placeholders and parameters agree.** As long as the variables in the store were handed out by
these names to distinct entities, the quoted identifiers in the text of every statement that is
composed are closed, whatever labels, types and fields contain. The placeholders outside of them are
all different, they consist of lower-case letters, digits and underscores, and they are exactly the
parameters of the statement. -/
theorem placeholdersAgree_of_namedBy (m : Moment) {store : Store} {names : Names}
    (hnamed : store.NamedBy names) :
    (∀ keys statement, (composeSave m store names keys).outcome = .ok statement →
        statement.PlaceholdersAgree) ∧
      (∀ keys detach statement, (composeDelete store names keys detach).outcome =
        .ok (some statement) → statement.PlaceholdersAgree) ∧
      (∀ key statement, (composeLookup store names key).outcome = .ok statement →
        statement.PlaceholdersAgree) ∧
      ∀ start traversal other statement, Plain other →
        (composeTraversal store names start traversal other).outcome = .ok statement →
          statement.PlaceholdersAgree :=
  ⟨fun _ _ hs => placeholdersAgree_composeSave hnamed hs,
    fun _ _ _ hs => placeholdersAgree_composeDelete hnamed hs,
    fun _ _ hs => placeholdersAgree_composeLookup hnamed hs,
    fun _ _ _ _ hother hs => placeholdersAgree_composeTraversal hnamed hother hs⟩

/-- The type of the relationships that are followed is a quoted identifier with a placeholder in
it. -/
def quotedTraversal : Traversal :=
  { type := "`$name`", properties := [("$since", .integer 3)], limit := some 10 }

theorem placeholdersAgree_friend :
    (∃ statement, (composeSave .epoch friendStore { nodes := 1 } [⟨1⟩]).outcome = .ok statement ∧
        statement.PlaceholdersAgree) ∧
      ∃ statement, (composeTraversal friendStore { nodes := 1 } ⟨0⟩ quotedTraversal
          "node_1f").outcome = .ok statement ∧ statement.PlaceholdersAgree := by
  obtain ⟨hsave, -, -, htraversal⟩ := placeholdersAgree_of_namedBy .epoch friendStore_namedBy
  exact ⟨⟨_, rfl, hsave [⟨1⟩] _ rfl⟩, _, rfl,
    htraversal ⟨0⟩ quotedTraversal "node_1f" _ (by decide) rfl⟩

end GraphMapping
