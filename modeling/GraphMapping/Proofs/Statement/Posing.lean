import Mathlib.Data.List.Perm.Basic
import GraphMapping.Proofs.Statement.SaveBatch
import GraphMapping.Proofs.Statement.TraversalText

/-!
# What a traversal asks

A traversal is posed by a statement whose text is a path from the start to the other end. The text
compares the properties of the relationships, in order, with parameters of their own, and it asks
for the start by its id or else by its labels. What the parameters are bound to is then what is
asked, and there are no parameters but these.

The row counts are unsigned and parameters are signed. A count from `2 ^ 63` on is bound to a
negative number, which is the one thing that is asked wrongly.

## Main definitions

* `Entity.Named`: the variable of an entity is one that was handed out, by whichever names.
* `Traversal.PosedBy`: the statement asks for what the traversal says.
* `Statement.BindsNumber`: a parameter is bound to a number.

## Main results

* `composeTraversal_posed`: every traversal from a node is posed, and when its row counts are right.
* `composeTraversal_negates_limit`: the largest limit is bound to `-1`.
-/

namespace GraphMapping

/-- The variable of the entity, if it has one, was handed out, by whichever names. -/
def Entity.Named (e : Entity) : Prop :=
  ∀ name, e.queryVariable = some name → ∃ names : Names, names.Issued name

/-- The entity is given such a variable if it has none. -/
theorem Entity.Named.exists_issued {e bound : Entity} (h : e.Named) {names names' : Names}
    {name : String} (hdefine : names.define e = (name, bound, names')) :
    ∃ names'' : Names, names''.Issued name := by
  rcases Names.define_cases hdefine with ⟨hbound, -⟩ | ⟨-, rfl, -⟩
  · exact h name hbound
  · exact ⟨_, names.issued_allocate e.kind⟩

/-! ### Row counts -/

/-- A word beyond the signed range loses `2 ^ 64`. -/
theorem toInt_toInt64 (n : UInt64) :
    n.toInt64.toInt = if n.toNat < 2 ^ 63 then (n.toNat : Int) else n.toNat - (2 ^ 64 : Nat) := by
  have hbits : n.toInt64.toInt = n.toBitVec.toInt := rfl
  have hnat : n.toBitVec.toNat = n.toNat := rfl
  rw [hbits, BitVec.toInt_eq_toNat_cond, hnat]
  split <;> split <;> omega

/-- The parameter is bound to the number. -/
def Statement.BindsNumber (statement : Statement) (param : String) (n : Nat) : Prop :=
  ∃ i : Int64, statement.params.get? param = some (.integer i) ∧ i.toInt = n

/-- A row count is bound as it is within the signed range only. Counts are unsigned and parameters
are signed; beyond the range the statement is posed all the same, with a negative number. -/
theorem Statement.bindsNumber_iff {statement : Statement} {param : String} {n : UInt64}
    (h : statement.params.get? param = some (Traversal.countParam n)) :
    statement.BindsNumber param n.toNat ↔ n.toNat < 2 ^ 63 := by
  have hvalue : statement.BindsNumber param n.toNat ↔ n.toInt64.toInt = n.toNat := by
    rw [BindsNumber, h, Traversal.countParam]
    simp
  rw [hvalue, toInt_toInt64]
  split <;> omega

/-! ### Posing a traversal -/

/-- The statement asks for what the traversal says, and for nothing else, from a start that goes by
the variable `name`. The id of the start is compared with the parameter `idParam`, and the properties
of the relationships are compared, in order, with `fieldParams`. -/
structure Traversal.PosedBy (t : Traversal) (e : Entity) (name other idParam : String)
    (fieldParams : List String) (statement : Statement) : Prop where
  length : fieldParams.length = t.properties.length
  nodup : fieldParams.Nodup
  text : statement.text = t.write (startPattern name e)
    ((t.properties.map Prod.fst).zip fieldParams) (startCondition name idParam e) other
  /-- All names of parameters are different, as they are names of a dictionary. -/
  params : statement.params.toList.Perm
    (startParams idParam e ++ fieldParams.zip (t.properties.map Prod.snd) ++ t.counts)
  returns : statement.returns = [other]

/-- The row counts are parameters whenever they are asked for. -/
theorem Traversal.PosedBy.get?_counts {t : Traversal} {e : Entity} {name other idParam : String}
    {fieldParams : List String} {statement : Statement}
    (h : t.PosedBy e name other idParam fieldParams statement) :
    (∀ n, t.skip = some n → statement.params.get? "skip" = some (countParam n)) ∧
      ∀ n, t.limit = some n → statement.params.get? "limit" = some (countParam n) := by
  have hbound : ∀ pair ∈ t.counts, statement.params.get? pair.1 = some pair.2 := by
    intro pair hpair
    exact Dict.get?_eq_some_iff.mpr (h.params.mem_iff.mpr (List.mem_append_right _ hpair))
  refine ⟨fun n hn => hbound ("skip", _) ?_, fun n hn => hbound ("limit", _) ?_⟩
  · exact List.mem_append_left _ (by rw [hn]; exact List.mem_cons_self)
  · exact List.mem_append_right _ (by rw [hn]; exact List.mem_cons_self)

/-- The fields and the values are those that were numbered. -/
theorem map_field_numberFields (name : String) (n : Nat) (fields : List (String × Value)) :
    (numberFields name n fields).map (·.field) = fields.map Prod.fst ∧
      (numberFields name n fields).map (·.value) = fields.map Prod.snd := by
  have hpairs := map_numberFields name n fields
  have hfields := congrArg (List.map Prod.fst) hpairs
  have hvalues := congrArg (List.map Prod.snd) hpairs
  rw [List.map_map] at hfields hvalues
  exact ⟨hfields, hvalues⟩

/-- Numbered properties pose the traversal. -/
theorem Traversal.posedBy_write (t : Traversal) (e : Entity) {names : Names} {name : String}
    (hissued : names.Issued name) (other : String) (k n : Nat) :
    t.PosedBy e name other (Names.paramName name "id" k)
      ((numberFields "rel" n t.properties).map (·.param))
      ⟨t.write (startPattern name e)
          ((numberFields "rel" n t.properties).map fun b => (b.field, b.param))
          (startCondition name (Names.paramName name "id" k) e) other,
        Dict.empty.insertAll (t.bound (startParams (Names.paramName name "id" k) e) n), [other]⟩ := by
  obtain ⟨hfields, hvalues⟩ := map_field_numberFields "rel" n t.properties
  constructor
  case length => rw [List.length_map, length_numberFields]
  case nodup => exact nodup_numberFields isStem_rel n t.properties
  case text => rw [← hfields, List.zip_map']
  case params =>
    rw [← hvalues, List.zip_map']
    exact Dict.toList_insertAll_perm (d := (.empty : Dict Value))
      (t.nodup_bound hissued (asks_startParams name k e) n)
      fun pair hpair entry hentry => absurd hentry List.not_mem_nil
  case returns => rfl

/-- **Traversals are posed exactly.** Whatever the names, the type, the direction, the labels, the
properties and the row counts are, the traversal from a stored node is posed: by a statement that
compares every property, in order, with a parameter of its own that is bound to the value, that asks
for the id of the start if it has one and for its labels otherwise, and that has no other parameters
but the row counts. A row count is bound to its number exactly if it is below `2 ^ 63`. -/
theorem composeTraversal_posed (names : Names) {store : Store} {start : EntityKey} {e : Entity}
    (he : store.get? start = some e) (hnode : e.isRelationship = false) (hnamed : e.Named)
    (t : Traversal) (other : String) :
    ∃ statement idParam fieldParams names',
      composeTraversal store names start t other =
          ⟨.ok statement, store.modify start fun _ => e.bindVariable (names.define e).1, names'⟩ ∧
        t.PosedBy e (names.define e).1 other idParam fieldParams statement ∧
        (∀ n, t.skip = some n → (statement.BindsNumber "skip" n.toNat ↔ n.toNat < 2 ^ 63)) ∧
        ∀ n, t.limit = some n → (statement.BindsNumber "limit" n.toNat ↔ n.toNat < 2 ^ 63) := by
  obtain ⟨name, names₁, hdefine⟩ := names.exists_define e
  obtain ⟨issuer, hissued⟩ := hnamed.exists_issued hdefine
  obtain ⟨k, n, names', heq⟩ := composeTraversal_eq he hnode hdefine t other
  have hname : (names.define e).1 = name := congrArg Prod.fst hdefine
  have hposed := t.posedBy_write e hissued other k n
  obtain ⟨hskip, hlimit⟩ := hposed.get?_counts
  rw [hname]
  exact ⟨_, _, _, names', heq, hposed, fun n hn => Statement.bindsNumber_iff (hskip n hn),
    fun n hn => Statement.bindsNumber_iff (hlimit n hn)⟩

/-- A traversal whose property names are spelled alike, one of them twice, with the largest skip that
is bound as it is and the smallest limit that is not. -/
def clashingTraversal : Traversal :=
  { type := "Knows"
    direction := .both
    endLabels := ["Person"]
    properties := [("a b", .integer 1), ("a_b", .null), ("a b", .string "$rel_a_b_1")]
    skip := some 9223372036854775807
    limit := some 9223372036854775808 }

/-- A start that already has a variable, which other names handed out. -/
theorem composeTraversal_posed_clashing :
    ∃ e statement idParam fieldParams, friendStore.get? ⟨0⟩ = some e ∧ e.isRelationship = false ∧
      e.Named ∧
      (composeTraversal friendStore .fresh ⟨0⟩ clashingTraversal "node_1f").outcome =
        .ok statement ∧
      clashingTraversal.PosedBy e "n0" "node_1f" idParam fieldParams statement ∧
      statement.BindsNumber "skip" 9223372036854775807 ∧
      ¬ statement.BindsNumber "limit" 9223372036854775808 := by
  obtain ⟨e, he⟩ : ∃ e, friendStore.get? ⟨0⟩ = some e := ⟨_, rfl⟩
  have hvariable : e.queryVariable = some "n0" ∧ e.isRelationship = false := by
    obtain rfl := Option.some.inj he
    exact ⟨rfl, rfl⟩
  have hnamed : e.Named := fun name hname =>
    ⟨{ nodes := 1 }, friendStore_namedBy.issued ⟨0⟩ name ((Store.nameOf?_of_get? he).trans hname)⟩
  have hname : (Names.fresh.define e).1 = "n0" := by
    simp only [Names.define, hvariable.1]
  obtain ⟨statement, idParam, fieldParams, names', heq, hposed, hskip, hlimit⟩ :=
    composeTraversal_posed .fresh he hvariable.2 hnamed clashingTraversal "node_1f"
  rw [hname] at hposed
  exact ⟨e, statement, idParam, fieldParams, he, hvariable.2, hnamed, congrArg (·.outcome) heq,
    hposed, (hskip _ rfl).mpr (by decide), fun h => absurd ((hlimit _ rfl).mp h) (by decide)⟩

/-- The largest limit is bound to a negative number: as an unsigned word it has all bits set, and
this is minus one. -/
theorem composeTraversal_negates_limit :
    ∃ statement, (composeTraversal friendStore .fresh ⟨0⟩
          { type := "Knows", limit := some 18446744073709551615 } "node_1f").outcome =
        .ok statement ∧
      statement.params.get? "limit" = some (.integer (-1)) ∧
      ¬ statement.BindsNumber "limit" 18446744073709551615 := by
  refine ⟨_, rfl, rfl, ?_⟩
  rintro ⟨i, hi, hnumber⟩
  obtain rfl : -1 = i := Value.integer.inj (Option.some.inj hi)
  exact absurd hnumber (by decide)

end GraphMapping
