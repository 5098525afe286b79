import GraphMapping.Proofs.Entity.Reloading

/-!
# Removed properties

That a property was removed is kept apart from the properties, as a list of names. Every command
that has to do with one of the two has its own effect on the other. A removal adds the name to the
list; committing and loading clear it. An assignment takes its name from the list, also where a
closed bag ignores it and there is still no property. A batch of assignments leaves the list alone,
also where it makes a property under a name that stands in it.

So there are two ways for the list to go wrong. On a closed bag it forgets a removal. On an open one
it keeps a name that is a property again.

## Main definitions

* `Command.Assigns`, `Command.Clears`: commands that take names from the list.
* `Command.Amends`: the commands that neither commit nor load.
* `Entity.Clashes`: a property of the entity stands in the list of removed ones.
* `Command.Settles`, `Command.Restores`: what ends a clash, and what begins one.
* `Entity.Restored`: a history ends with a clash.
* `Entity.ComesBy`: the entity was made after a schema, and has a history.

## Main results

* `Bag.contains_assignSource`, `Bag.contains_assignAll`: which names assignments add.
* `Command.mem_deleted_apply`, `Command.contains_apply`: what a command makes of the list and of the
  names that have a property.
* `Command.clashes_apply`, `Entity.clashes_foldl_iff`: clashes after a command, and after a history.
* `Entity.ComesBy.clashes_iff`: the clashes of an entity are made by its history.
* `Entity.removal_kept_iff`: when a removal is kept.
* `Entity.assign_forgets_removal`: an assignment that is ignored and forgets a removal.
-/

namespace GraphMapping

/-! ### Names of a bag -/

namespace Bag

variable {bag bag' : Bag} {name other : String}

theorem contains_declare (bag : Bag) (name : String) (p : Property) :
    (bag.declare name p).contains other = true ↔ other = name ∨ bag.contains other = true := by
  by_cases hother : other = name
  · subst hother
    simp [contains, declare, Dict.contains]
  · simp [contains, declare, Dict.contains, Dict.get?_insert_of_ne _ hother, hother]

theorem contains_remove (bag : Bag) (name : String) :
    (bag.remove name).contains other = true ↔ other ≠ name ∧ bag.contains other = true := by
  by_cases hother : other = name
  · subst hother
    simp [contains, remove, Dict.contains]
  · simp [contains, remove, Dict.contains, Dict.get?_erase_of_ne _ hother, hother]

/-- A closed bag ignores an assignment to a name that it does not have. -/
theorem assignSource_of_closed (hclosed : bag.allowUndefined = false)
    (hnone : bag.contains name = false) (source : Source) (sample : Value) :
    bag.assignSource name source sample = .ok bag := by
  have hslot : bag.properties.get? name = none := by simpa [contains, Dict.contains] using hnone
  rw [assignSource, hslot, hclosed]
  rfl

/-- Only an open bag refuses an assignment, and only under a new name: a property that is there
takes any value in its kind, and a closed bag ignores what it does not have. -/
theorem of_assignSource_error {source : Source} {sample : Value} {err : PropertyError}
    (h : bag.assignSource name source sample = .error err) :
    bag.allowUndefined = true ∧ bag.contains name = false := by
  rw [assignSource] at h
  cases hslot : bag.properties.get? name with
  | some p => simp [hslot] at h
  | none =>
    rw [hslot] at h
    cases hopen : bag.allowUndefined with
    | true => exact ⟨rfl, by simp [contains, Dict.contains, hslot]⟩
    | false => simp [hopen] at h

/-- An assignment adds its name to an open bag, and no other name. -/
theorem contains_assignSource {source : Source} {sample : Value}
    (h : bag.assignSource name source sample = .ok bag') :
    bag'.contains other = true ↔
      bag.contains other = true ∨ other = name ∧ bag.allowUndefined = true := by
  rw [assignSource] at h
  cases hslot : bag.properties.get? name with
  | some p =>
    rw [hslot] at h
    obtain rfl := Except.ok.inj h
    have hthere : bag.contains name = true := by simp [contains, Dict.contains, hslot]
    rw [contains_declare]
    constructor
    · rintro (rfl | hcontains)
      · exact .inl hthere
      · exact .inl hcontains
    · rintro (hcontains | ⟨rfl, -⟩)
      · exact .inr hcontains
      · exact .inl rfl
  | none =>
    rw [hslot] at h
    dsimp only at h
    split at h
    · rename_i hopen
      split at h
      · obtain rfl := Except.ok.inj h
        rw [contains_declare, or_comm]
        simp [hopen]
      · cases h
    · rename_i hclosed
      obtain rfl := Except.ok.inj h
      simp [hclosed]

theorem contains_assignPairs {pairs : List (String × Value)}
    (h : bag.assignPairs pairs = .ok bag') :
    bag'.contains other = true ↔
      bag.contains other = true ∨ other ∈ pairs.map Prod.fst ∧ bag.allowUndefined = true := by
  induction pairs generalizing bag with
  | nil =>
    obtain rfl := Except.ok.inj h
    simp
  | cons pair rest ih =>
    rw [assignPairs] at h
    cases hone : bag.assign pair.1 pair.2 with
    | error e => simp [hone] at h
    | ok bag₁ =>
      rw [hone] at h
      rw [ih h, contains_assignSource hone, (Assigned.assignSource hone).allowUndefined,
        List.map_cons, List.mem_cons, or_assoc, ← or_and_right]

/-- A batch adds its names to an open bag, and no other name. -/
theorem contains_assignAll {pairs : List (String × Value)} (h : bag.assignAll pairs = .ok bag') :
    bag'.contains other = true ↔
      bag.contains other = true ∨ other ∈ pairs.map Prod.fst ∧ bag.allowUndefined = true := by
  rw [assignAll] at h
  split at h
  · cases h
  · have hnames : other ∈ (Dict.ofList pairs).toList.map Prod.fst ↔ other ∈ pairs.map Prod.fst :=
      Dict.mem_names_iff.trans Dict.isSome_get?_ofList
    rw [contains_assignPairs h, hnames]

/-- A closed bag ignores a batch for names that it does not have. -/
theorem assignPairs_of_closed (hclosed : bag.allowUndefined = false)
    {pairs : List (String × Value)} (hnone : ∀ pair ∈ pairs, bag.contains pair.1 = false) :
    bag.assignPairs pairs = .ok bag := by
  induction pairs with
  | nil => rfl
  | cons pair rest ih =>
    obtain ⟨hpair, hrest⟩ := List.forall_mem_cons.mp hnone
    rw [assignPairs, assign, assignSource_of_closed hclosed hpair]
    exact ih hrest

theorem assignAll_of_closed (hclosed : bag.allowUndefined = false)
    {pairs : List (String × Value)} (hnone : ∀ pair ∈ pairs, bag.contains pair.1 = false) :
    bag.assignAll pairs = .ok bag := by
  have hrefused : ((Dict.ofList pairs).toList.find? fun entry => bag.refuses entry.1 entry.2) =
      none := by
    refine List.find?_eq_none.mpr fun entry _ => ?_
    simp [refuses, hclosed]
  rw [assignAll, hrefused]
  refine assignPairs_of_closed hclosed fun entry hentry => hnone entry ?_
  exact Dict.mem_of_get?_ofList (Dict.get?_eq_some_iff.mpr hentry)

end Bag

namespace Entity

variable {e e' : Entity} {name other : String} {command : Command} {commands : List Command}

/-! ### One command -/

namespace Command

/-- The command assigns to the name alone. -/
def Assigns (name : String) : Command → Prop
  | assign other _ => other = name
  | assignProducer _ other _ => other = name
  | _ => False

/-- The command forgets all removals. -/
def Clears : Command → Prop
  | load _ => True
  | commit _ => True
  | _ => False

/-- The command makes a property of the name in an open bag that has none. -/
def Adds (e : Entity) (name : String) : Command → Prop
  | assign other value => other = name ∧ (e.assign other value).isOk = true
  | assignProducer m other producer =>
    other = name ∧ (e.assignProducer m other producer).isOk = true
  | assignAll pairs => name ∈ pairs.map Prod.fst ∧ (e.assignAll pairs).isOk = true
  | _ => False

/-- The command assigns, removes, or assigns a batch. -/
def Amends : Command → Prop
  | assign .. => True
  | assignProducer .. => True
  | assignAll _ => True
  | remove _ => True
  | _ => False

end Command

theorem contains_remove (e : Entity) (name : String) :
    (e.remove name).properties.contains other = true ↔
      other ≠ name ∧ e.properties.contains other = true := by
  rw [remove]
  split
  · exact e.properties.contains_remove name
  · rename_i hnot
    refine ⟨fun hother => ⟨?_, hother⟩, And.right⟩
    rintro rfl
    exact hnot hother

theorem allowUndefined_remove (e : Entity) (name : String) :
    (e.remove name).properties.allowUndefined = e.properties.allowUndefined := by
  rw [remove]
  split <;> rfl

theorem mem_deleted_remove (e : Entity) (name : String) :
    other ∈ (e.remove name).deleted ↔
      other ∈ e.deleted ∨ other = name ∧ e.properties.contains name = true := by
  rw [remove]
  split
  · rename_i hthere
    dsimp only
    split
    · rename_i hmem
      refine (or_iff_left_of_imp ?_).symm
      rintro ⟨rfl, -⟩
      exact hmem
    · simp [hthere]
  · rename_i hnot
    simp [hnot]

/-- An assignment, which may be refused, that takes the name from the list of removed ones. -/
theorem mem_deleted_assignSource (e : Entity) (name : String) (source : Source) (sample : Value) :
    let after := ((e.properties.assignSource name source sample).map
      (e.withAssigned name)).toOption.getD e
    other ∈ after.deleted ↔ other ∈ e.deleted ∧
      ¬ (name = other ∧
        (after.properties.contains other = true ∨ e.properties.allowUndefined = false)) := by
  cases hassigned : e.properties.assignSource name source sample with
  | error err =>
    obtain ⟨hopen, hnone⟩ := Bag.of_assignSource_error hassigned
    change other ∈ e.deleted ↔ other ∈ e.deleted ∧ ¬ (name = other ∧
      (e.properties.contains other = true ∨ e.properties.allowUndefined = false))
    refine (and_iff_left ?_).symm
    rintro ⟨rfl, hthere | hclosed⟩
    · exact Bool.noConfusion (hthere.symm.trans hnone)
    · exact Bool.noConfusion (hclosed.symm.trans hopen)
  | ok bag =>
    have hthere : bag.contains name = true ∨ e.properties.allowUndefined = false := by
      rw [Bag.contains_assignSource hassigned]
      cases e.properties.allowUndefined <;> simp
    change other ∈ e.deleted.filter (· ≠ name) ↔ other ∈ e.deleted ∧ ¬ (name = other ∧
      (bag.contains other = true ∨ e.properties.allowUndefined = false))
    rw [List.mem_filter, decide_eq_true_iff]
    refine and_congr_right fun _ => not_congr ?_
    constructor
    · rintro rfl
      exact ⟨rfl, hthere⟩
    · exact fun h => h.1.symm

/-- An assignment, which may be refused, adds its name to an open bag. -/
theorem contains_assignSource (e : Entity) (name : String) (source : Source) (sample : Value) :
    let assigned := (e.properties.assignSource name source sample).map (e.withAssigned name)
    (assigned.toOption.getD e).properties.contains other = true ↔
      e.properties.contains other = true ∨
        e.properties.allowUndefined = true ∧ name = other ∧ assigned.isOk = true := by
  cases hassigned : e.properties.assignSource name source sample with
  | error err => simp [Except.map, Except.toOption, Except.isOk, Except.toBool]
  | ok bag =>
    refine (Bag.contains_assignSource hassigned).trans (or_congr_right ?_)
    exact ⟨fun h => ⟨h.2, h.1.symm, rfl⟩, fun h => ⟨h.2.1.symm, h.1⟩⟩

/-- A batch, which may be refused, adds its names to an open bag. -/
theorem contains_assignAll (e : Entity) (pairs : List (String × Value)) :
    ((e.assignAll pairs).toOption.getD e).properties.contains other = true ↔
      e.properties.contains other = true ∨ e.properties.allowUndefined = true ∧
        other ∈ pairs.map Prod.fst ∧ (e.assignAll pairs).isOk = true := by
  rw [assignAll]
  cases hassigned : e.properties.assignAll pairs with
  | error err => simp [Except.map, Except.toOption, Except.isOk, Except.toBool]
  | ok bag =>
    refine (Bag.contains_assignAll hassigned).trans (or_congr_right ?_)
    exact ⟨fun h => ⟨h.2, h.1, rfl⟩, fun h => ⟨h.2.1, h.1⟩⟩

theorem properties_setEndpoint (e : Entity) (role : EndpointRole) (other : Endpoint) :
    ((e.setEndpoint role other).toOption.getD e).properties = e.properties ∧
      ((e.setEndpoint role other).toOption.getD e).deleted = e.deleted := by
  cases hshape : e.shape <;> cases role <;> simp [setEndpoint, hshape, Except.toOption]

namespace Command

/-- **What a command makes of the list of removed names.** -/
theorem mem_deleted_apply (command : Command) (e : Entity) (name : String) :
    name ∈ (command.apply e).deleted ↔ ¬ command.Clears ∧
      (name ∈ e.deleted ∨ name ∈ command.removes ∧ e.properties.contains name = true) ∧
      ¬ (command.Assigns name ∧ ((command.apply e).properties.contains name = true ∨
        e.properties.allowUndefined = false)) := by
  cases command with
  | assign other value =>
    refine (e.mem_deleted_assignSource other (.fixed value) value).trans ?_
    simp [Clears, removes, Assigns, apply, Entity.assign, Bag.assign]
  | assignProducer m other producer =>
    refine (e.mem_deleted_assignSource other (.producer producer) (producer.run m)).trans ?_
    simp [Clears, removes, Assigns, apply, Entity.assignProducer, Bag.assignProducer]
  | remove other =>
    refine (e.mem_deleted_remove other).trans ?_
    simp only [Clears, removes, Assigns, not_false_eq_true, true_and, false_and, and_true,
      List.mem_singleton]
    refine or_congr_right (and_congr_right fun heq => ?_)
    rw [heq]
  | load | commit => simp [apply, Entity.load, Entity.commit, Clears]
  | assignAll pairs =>
    have hdeleted : (apply e (.assignAll pairs)).deleted = e.deleted := by
      rw [apply, Entity.assignAll]
      cases e.properties.assignAll pairs <;> rfl
    simp [hdeleted, Clears, removes, Assigns]
  | setEndpoint role other =>
    simp [apply, (e.properties_setEndpoint role other).2, Clears, removes, Assigns]
  | setId | resetProperties | changeProperties =>
    simp [apply, Entity.setId, Entity.resetProperties, Clears, removes, Assigns]

/-- **What a command makes of the names that have a property**, unless it loads or commits. -/
theorem contains_apply (hnamed : command.IsNamed) (hclears : ¬ command.Clears) (e : Entity)
    (name : String) :
    (command.apply e).properties.contains name = true ↔
      e.properties.contains name = true ∧ name ∉ command.removes ∨
        e.properties.allowUndefined = true ∧ command.Adds e name := by
  cases command with
  | changeProperties => exact hnamed.elim
  | load | commit => exact absurd trivial hclears
  | assign other value =>
    refine (e.contains_assignSource other (.fixed value) value).trans ?_
    simp [removes, Adds, Entity.assign, Bag.assign]
  | assignProducer m other producer =>
    refine (e.contains_assignSource other (.producer producer) (producer.run m)).trans ?_
    simp [removes, Adds, Entity.assignProducer, Bag.assignProducer]
  | assignAll pairs => simpa [removes, Adds, apply] using e.contains_assignAll pairs
  | remove other =>
    simp only [removes, Adds, List.mem_singleton, and_false, or_false]
    exact (e.contains_remove other).trans and_comm
  | setEndpoint role other => simp [apply, (e.properties_setEndpoint role other).1, removes, Adds]
  | setId => simp [apply, Entity.setId, removes, Adds]
  | resetProperties =>
    simp [apply, Entity.resetProperties, Bag.reset, Bag.contains, Dict.contains, Dict.get?_map,
      removes, Adds]

theorem allowUndefined_apply (hnamed : command.IsNamed) (e : Entity) :
    (command.apply e).properties.allowUndefined = e.properties.allowUndefined := by
  cases command with
  | changeProperties => exact hnamed.elim
  | assign | assignProducer =>
    exact (assigned_of_map (fun _ => rfl) fun _ => .assignSource).allowUndefined
  | assignAll => exact (assigned_of_map (fun _ => rfl) fun _ => .assignAll).allowUndefined
  | remove other => exact e.allowUndefined_remove other
  | setEndpoint role other => rw [apply, (e.properties_setEndpoint role other).1]
  | setId | load | commit | resetProperties => rfl

end Command

/-! ### Clashes -/

/-- The entity has a property that stands in the list of removed ones. -/
def Clashes (e : Entity) (name : String) : Prop :=
  e.properties.contains name = true ∧ name ∈ e.deleted

instance : Decidable (e.Clashes name) := inferInstanceAs (Decidable (_ ∧ _))

namespace Command

/-- The command ends a clash of the name: it assigns to it or removes it, or forgets all
removals. -/
def Settles (name : String) (command : Command) : Prop :=
  command.Clears ∨ command.Assigns name ∨ name ∈ command.removes

/-- The command is a batch of assignments that makes a property under a removed name. -/
def Restores (e : Entity) (name : String) (command : Command) : Prop :=
  name ∈ e.deleted ∧ e.properties.contains name = false ∧ e.properties.allowUndefined = true ∧
    ∃ pairs, command = .assignAll pairs ∧ name ∈ pairs.map Prod.fst ∧
      (e.assignAll pairs).isOk = true

/-- Among the commands that settle nothing only a batch adds a name. -/
theorem contains_apply_of_not_settles (hnamed : command.IsNamed) (h : ¬ command.Settles name)
    (e : Entity) :
    (command.apply e).properties.contains name = true ↔ e.properties.contains name = true ∨
      e.properties.allowUndefined = true ∧ ∃ pairs, command = .assignAll pairs ∧
        name ∈ pairs.map Prod.fst ∧ (e.assignAll pairs).isOk = true := by
  simp only [Settles, not_or] at h
  obtain ⟨hclears, hassigns, hremoves⟩ := h
  rw [contains_apply hnamed hclears, and_iff_left hremoves]
  refine or_congr_right (and_congr_right fun _ => ?_)
  cases command with
  | assign | assignProducer => exact iff_of_false (fun h => hassigns h.1) (by simp)
  | assignAll pairs => simp only [Adds, assignAll.injEq, exists_eq_left']
  | _ => simp [Adds]

/-- What settles a name leaves no clash behind. -/
theorem not_clashes_of_settles (h : command.Settles name) (e : Entity) :
    ¬ (command.apply e).Clashes name := by
  rintro ⟨hthere, hmem⟩
  obtain ⟨hclears, -, hassigns⟩ := (command.mem_deleted_apply e name).mp hmem
  rcases h with h | h | h
  · exact hclears h
  · exact hassigns ⟨h, .inl hthere⟩
  · cases command with
    | remove other =>
      obtain rfl := List.mem_singleton.mp h
      exact ((e.contains_remove name).mp hthere).1 rfl
    | _ => cases h

/-- **Clashes after a command.** A clash is one that was there and is not settled, or the command is
a batch that makes a property under a removed name. -/
theorem clashes_apply (hnamed : command.IsNamed) (e : Entity) (name : String) :
    (command.apply e).Clashes name ↔
      e.Clashes name ∧ ¬ command.Settles name ∨ command.Restores e name := by
  by_cases hsettles : command.Settles name
  · refine iff_of_false (not_clashes_of_settles hsettles e) ?_
    rintro (⟨-, h⟩ | ⟨-, -, -, pairs, rfl, -⟩)
    · exact h hsettles
    · rcases hsettles with h | h | h <;> cases h
  · have hdeleted : name ∈ (command.apply e).deleted ↔ name ∈ e.deleted := by
      rw [mem_deleted_apply]
      simp only [Settles, not_or] at hsettles
      simp [hsettles]
    rw [Entity.Clashes, Entity.Clashes, hdeleted, contains_apply_of_not_settles hnamed hsettles e,
      Restores]
    simp only [hsettles, not_false_eq_true, and_true]
    cases e.properties.contains name <;> simp [and_comm]

end Command

/-- In a history, a batch makes a property under a removed name, and no later command settles it. -/
def Restored (origin : Entity) (commands : List Command) (name : String) : Prop :=
  ∃ before command after, commands = before ++ command :: after ∧
    command.Restores (before.foldl Command.apply origin) name ∧
    ∀ command ∈ after, ¬ command.Settles name

/-- **Clashes after a history.** A clash was there from the start and no command settles it, or the
history has restored the name. -/
theorem clashes_foldl_iff (hnamed : ∀ command ∈ commands, command.IsNamed) (e : Entity)
    (name : String) :
    (commands.foldl Command.apply e).Clashes name ↔
      e.Clashes name ∧ (∀ command ∈ commands, ¬ command.Settles name) ∨
        Restored e commands name := by
  induction commands generalizing e with
  | nil => simp [Restored]
  | cons command rest ih =>
    obtain ⟨hcommand, hrest⟩ := List.forall_mem_cons.mp hnamed
    rw [List.foldl_cons, ih hrest, Command.clashes_apply hcommand, List.forall_mem_cons]
    constructor
    · rintro (⟨⟨hclash, hsettles⟩ | hrestores, hlater⟩ |
        ⟨before, other, after, rfl, hrestores, hlater⟩)
      · exact .inl ⟨hclash, hsettles, hlater⟩
      · exact .inr ⟨[], command, rest, rfl, hrestores, hlater⟩
      · exact .inr ⟨command :: before, other, after, rfl, hrestores, hlater⟩
    · rintro (⟨hclash, hsettles, hlater⟩ | ⟨before, other, after, heq, hrestores, hlater⟩)
      · exact .inl ⟨.inl ⟨hclash, hsettles⟩, hlater⟩
      · cases before with
        | nil =>
          obtain ⟨rfl, rfl⟩ := List.cons.inj heq
          exact .inl ⟨.inr hrestores, hlater⟩
        | cons first before =>
          obtain ⟨rfl, rfl⟩ := List.cons.inj heq
          exact .inr ⟨before, other, after, rfl, hrestores, hlater⟩

theorem Command.nodup_deleted_apply (command : Command) (h : e.deleted.Nodup) :
    (command.apply e).deleted.Nodup := by
  have hassigned : ∀ (name : String) (x : Except PropertyError Bag),
      ((x.map (e.withAssigned name)).toOption.getD e).deleted.Nodup := by
    intro name x
    cases x with
    | error err => exact h
    | ok bag => exact h.filter _
  cases command with
  | assign name value => exact hassigned name (e.properties.assign name value)
  | assignProducer m name producer =>
    exact hassigned name (e.properties.assignProducer m name producer)
  | assignAll pairs =>
    rw [apply, Entity.assignAll]
    cases e.properties.assignAll pairs <;> exact h
  | remove name =>
    rw [apply, Entity.remove]
    split
    · dsimp only
      split
      · exact h
      · rename_i hnew
        rw [← List.concat_eq_append]
        exact h.concat hnew
    · exact h
  | setEndpoint role other =>
    rw [apply, (e.properties_setEndpoint role other).2]
    exact h
  | load | commit => exact .nil
  | setId | resetProperties | changeProperties => exact h

theorem nodup_deleted_foldl (h : e.deleted.Nodup) :
    (commands.foldl Command.apply e).deleted.Nodup := by
  induction commands generalizing e with
  | nil => exact h
  | cons command rest ih => exact ih (command.nodup_deleted_apply h)

theorem deleted_of_instantiate {schema : Schema} {new : NewEntity}
    (h : schema.instantiate new = .ok e) : e.deleted = [] := by
  rw [Schema.instantiate] at h
  split at h
  · cases h
  · split at h
    · split at h
      · cases h
      · obtain rfl := Except.ok.inj h
        rfl
    · obtain rfl := Except.ok.inj h
      rfl

/-- The entity was a new one of some schema, and has come to its data by commands. The variable that
it may have been given since does not matter. -/
structure ComesBy (e origin : Entity) (commands : List Command) : Prop where
  made : ∃ (schema : Schema) (new : NewEntity), schema.instantiate new = .ok origin
  named : ∀ command ∈ commands, command.IsNamed
  result : e.releaseVariable = (commands.foldl Command.apply origin).releaseVariable

namespace ComesBy

variable {origin : Entity} (h : e.ComesBy origin commands)

include h

theorem properties_eq : e.properties = (commands.foldl Command.apply origin).properties :=
  congrArg (fun e => e.properties) h.result

theorem deleted_eq : e.deleted = (commands.foldl Command.apply origin).deleted :=
  congrArg (fun e => e.deleted) h.result

theorem nodup_deleted : e.deleted.Nodup := by
  obtain ⟨schema, new, hmade⟩ := h.made
  rw [h.deleted_eq]
  refine nodup_deleted_foldl ?_
  rw [deleted_of_instantiate hmade]
  exact .nil

/-- A new entity has no clashes, so the clashes are those that its history has made. -/
theorem clashes_iff (name : String) : e.Clashes name ↔ Restored origin commands name := by
  obtain ⟨schema, new, hmade⟩ := h.made
  have hnone : ¬ origin.Clashes name := by
    rintro ⟨-, hmem⟩
    rw [deleted_of_instantiate hmade] at hmem
    exact List.not_mem_nil hmem
  rw [Clashes, h.properties_eq, h.deleted_eq]
  exact (clashes_foldl_iff h.named origin name).trans (or_iff_right fun hold => hnone hold.1)

end ComesBy

/-! ### What becomes of a removal -/

namespace Command

theorem Amends.isNamed (h : command.Amends) : command.IsNamed := by
  cases command with
  | changeProperties => exact h
  | _ => trivial

theorem Amends.not_clears (h : command.Amends) : ¬ command.Clears := by
  cases command with
  | load | commit => exact fun _ => h
  | _ => exact fun hclears => hclears

/-- On an open bag a removed name stays in the list or is that of a property. -/
theorem Amends.kept_of_open (h : command.Amends) (hopen : e.properties.allowUndefined = true)
    (hkept : name ∈ e.deleted ∨ e.properties.contains name = true) :
    name ∈ (command.apply e).deleted ∨ (command.apply e).properties.contains name = true := by
  refine or_iff_not_imp_right.mpr fun hnone => ?_
  refine (command.mem_deleted_apply e name).mpr ⟨h.not_clears, ?_, ?_⟩
  · refine hkept.imp_right fun hthere => ⟨?_, hthere⟩
    -- a property that is gone was removed
    by_contra hremoves
    exact hnone ((contains_apply h.isNamed h.not_clears e name).mpr (.inl ⟨hthere, hremoves⟩))
  · simp [hnone, hopen]

/-- On a closed bag a removed name is never that of a property, and each assignment to it takes it
from the list. -/
theorem Amends.deleted_iff_of_closed (h : command.Amends)
    (hclosed : e.properties.allowUndefined = false) (hnone : e.properties.contains name = false) :
    (command.apply e).properties.contains name = false ∧
      (name ∈ (command.apply e).deleted ↔ name ∈ e.deleted ∧ ¬ command.Assigns name) := by
  constructor
  · rw [← Bool.not_eq_true, contains_apply h.isNamed h.not_clears]
    simp [hclosed, hnone]
  · rw [mem_deleted_apply]
    simp [hclosed, hnone, h.not_clears]

end Command

theorem kept_foldl_of_open (hamends : ∀ command ∈ commands, command.Amends)
    (hopen : e.properties.allowUndefined = true)
    (hkept : name ∈ e.deleted ∨ e.properties.contains name = true) :
    name ∈ (commands.foldl Command.apply e).deleted ∨
      (commands.foldl Command.apply e).properties.contains name = true := by
  induction commands generalizing e with
  | nil => exact hkept
  | cons command rest ih =>
    obtain ⟨hcommand, hrest⟩ := List.forall_mem_cons.mp hamends
    exact ih hrest ((command.allowUndefined_apply hcommand.isNamed e).trans hopen)
      (hcommand.kept_of_open hopen hkept)

theorem deleted_foldl_iff_of_closed (hamends : ∀ command ∈ commands, command.Amends)
    (hclosed : e.properties.allowUndefined = false) (hnone : e.properties.contains name = false) :
    (commands.foldl Command.apply e).properties.contains name = false ∧
      (name ∈ (commands.foldl Command.apply e).deleted ↔
        name ∈ e.deleted ∧ ∀ command ∈ commands, ¬ command.Assigns name) := by
  induction commands generalizing e with
  | nil => exact ⟨hnone, by simp⟩
  | cons command rest ih =>
    obtain ⟨hcommand, hrest⟩ := List.forall_mem_cons.mp hamends
    obtain ⟨hnone', hdeleted⟩ := hcommand.deleted_iff_of_closed hclosed hnone
    obtain ⟨hnone'', hlater⟩ :=
      ih hrest ((command.allowUndefined_apply hcommand.isNamed e).trans hclosed) hnone'
    refine ⟨hnone'', hlater.trans ?_⟩
    rw [hdeleted, and_assoc, List.forall_mem_cons]

/-- The entity without a name in the list of removed ones. -/
def forget (e : Entity) (name : String) : Entity :=
  { e with deleted := e.deleted.filter (· ≠ name) }

theorem forget_eq_self_iff (e : Entity) (name : String) :
    e.forget name = e ↔ name ∉ e.deleted := by
  constructor
  · intro h hmem
    have hfilter : name ∈ (e.forget name).deleted := h.symm ▸ hmem
    simp [forget] at hfilter
  · intro hnot
    have hfilter : e.deleted.filter (· ≠ name) = e.deleted :=
      List.filter_eq_self.mpr fun other hother => decide_eq_true fun heq => hnot (heq ▸ hother)
    rw [forget, hfilter]

/-- An assignment that a closed bag ignores leaves no other trace. The one it leaves is that the
name is no longer listed as removed. -/
theorem assign_of_closed (hclosed : e.properties.allowUndefined = false)
    (hnone : e.properties.contains name = false) (m : Moment) (value : Value)
    (producer : Producer) :
    e.assign name value = .ok (e.forget name) ∧
      e.assignProducer m name producer = .ok (e.forget name) := by
  rw [assign, assignProducer, Bag.assign, Bag.assignProducer,
    Bag.assignSource_of_closed hclosed hnone, Bag.assignSource_of_closed hclosed hnone]
  exact ⟨rfl, rfl⟩

theorem assignAll_of_closed (hclosed : e.properties.allowUndefined = false)
    {pairs : List (String × Value)} (hnone : ∀ pair ∈ pairs, e.properties.contains pair.1 = false) :
    e.assignAll pairs = .ok e := by
  rw [assignAll, Bag.assignAll_of_closed hclosed hnone]
  rfl

/-- **When a removal is kept.** Remove a property of an entity, and then assign and remove in any
way. The name stands in the list of removed ones or is that of a property again, unless the entity
takes no properties that are not declared and the name was assigned to. In general a command takes a
name from the list exactly if it commits or loads, or if it assigns to the name and is not refused.
And where an assignment is ignored because there is no such property, everything stays as it was
except that the list loses the name; a batch that is ignored changes nothing. -/
theorem removal_kept_iff (e : Entity) (name : String) (commands : List Command)
    (hthere : e.properties.contains name = true)
    (hamends : ∀ command ∈ commands, command.Amends) :
    let held := commands.foldl Command.apply (e.remove name)
    (name ∈ held.deleted ∨ held.properties.contains name = true ↔
      e.properties.allowUndefined = true ∨ ∀ command ∈ commands, ¬ command.Assigns name) ∧
    (∀ (command : Command) (e' : Entity), ∀ other ∈ e'.deleted,
      (other ∉ (command.apply e').deleted ↔ command.Clears ∨ command.Assigns other ∧
        ((command.apply e').properties.contains other = true ∨
          e'.properties.allowUndefined = false))) ∧
    (∀ e' : Entity, e'.properties.allowUndefined = false →
      (∀ other, e'.properties.contains other = false → ∀ m value producer,
        e'.assign other value = .ok (e'.forget other) ∧
        e'.assignProducer m other producer = .ok (e'.forget other) ∧
        (e'.forget other = e' ↔ other ∉ e'.deleted)) ∧
      ∀ pairs, (∀ pair ∈ pairs, e'.properties.contains pair.1 = false) →
        e'.assignAll pairs = .ok e') := by
  intro held
  have hsame := e.allowUndefined_remove name
  have hdeleted : name ∈ (e.remove name).deleted :=
    (e.mem_deleted_remove name).mpr (.inr ⟨rfl, hthere⟩)
  have hgone : (e.remove name).properties.contains name = false := by
    rw [← Bool.not_eq_true, contains_remove]
    exact fun h => h.1 rfl
  refine ⟨?_, fun command e' other hother => ?_, fun e' hclosed => ⟨?_, fun pairs hnone => ?_⟩⟩
  · cases hopen : e.properties.allowUndefined with
    | true =>
      exact iff_of_true (kept_foldl_of_open hamends (hsame.trans hopen) (.inl hdeleted)) (.inl rfl)
    | false =>
      obtain ⟨hnone, hlist⟩ := deleted_foldl_iff_of_closed hamends (hsame.trans hopen) hgone
      simp only [held, hlist, hnone, hdeleted, Bool.false_eq_true, or_false, true_and, false_or]
  · rw [command.mem_deleted_apply e' other, not_and_or, not_and_or, not_not, not_not]
    simp only [hother, true_or, not_true_eq_false, false_or]
  · intro other hnone m value producer
    obtain ⟨hassign, hproducer⟩ := assign_of_closed hclosed hnone m value producer
    exact ⟨hassign, hproducer, e'.forget_eq_self_iff other⟩
  · exact assignAll_of_closed hclosed hnone

/-- Members have a nickname and no other properties. -/
def memberSchema : Schema := (Schema.node "Member").declare "nick" (.declared .string)

/-- A member that is stored. -/
def member : Entity where
  id := some 5
  typeName := "Member"
  labels := ["Member"]
  shape := .node
  properties := (Bag.ofDeclared memberSchema.declared false).load [("nick", .string "Ada")]
  deleted := []
  queryVariable := none

/-- The nickname of a member is removed; after another removal and a batch, which is ignored, the
list still has it. An assignment takes it from there, with a value or with a producer. -/
theorem removal_kept_iff_member :
    let commands := [Command.assignAll [("nick", .string "Eve")], .remove "nick"]
    let held := commands.foldl Command.apply (member.remove "nick")
    "nick" ∈ held.deleted ∧
      "nick" ∉ ((Command.assign "nick" (.string "Eve")).apply held).deleted ∧
      held.assignProducer .epoch "nick" .now = .ok (held.forget "nick") ∧
      held.forget "nick" ≠ held ∧ held.assignAll [("nick", .string "Eve")] = .ok held := by
  intro commands held
  have hthere : member.properties.contains "nick" = true := rfl
  have hamends : ∀ command ∈ commands, command.Amends := by simp [commands, Command.Amends]
  have hnot : ∀ command ∈ commands, ¬ command.Assigns "nick" := by
    simp [commands, Command.Assigns]
  have hclosed : held.properties.allowUndefined = false := rfl
  have hnone : held.properties.contains "nick" = false := rfl
  obtain ⟨hkept, hleaves, hignored⟩ := removal_kept_iff member "nick" commands hthere hamends
  have hmem : "nick" ∈ held.deleted :=
    (hkept.mpr (.inr hnot)).resolve_right fun hcontains => nomatch hnone.symm.trans hcontains
  obtain ⟨hassign, hbatch⟩ := hignored held hclosed
  obtain ⟨-, hproducer, hforget⟩ := hassign "nick" hnone .epoch (.string "Eve") .now
  refine ⟨hmem, (hleaves _ held "nick" hmem).mpr (.inr ⟨rfl, .inr hclosed⟩), hproducer,
    fun hsame => hforget.mp hsame hmem, hbatch _ fun pair hpair => ?_⟩
  rw [List.mem_singleton.mp hpair]
  exact hnone

/-- The nickname of a member is removed, and then one is assigned. There is no nickname afterwards,
and nothing says that there was one. -/
theorem assign_forgets_removal :
    let removed := member.remove "nick"
    let after := (Command.assign "nick" (.string "Eve")).apply removed
    memberSchema.instantiate { id := some 5, properties := [("nick", .string "Ada")] } =
        .ok member ∧
      removed.deleted = ["nick"] ∧ after.properties.contains "nick" = false ∧
      after.deleted = [] := by
  intro removed after
  exact ⟨rfl, rfl, rfl, rfl⟩

end Entity

end GraphMapping
