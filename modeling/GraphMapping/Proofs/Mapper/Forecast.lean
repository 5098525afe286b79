import GraphMapping.Proofs.Mapper.Actions
import GraphMapping.Proofs.Work.Forecast

/-!
# Previews before sending

A preview promises the statements that sending would execute. Hooks aside, and data that depends on
the moment, it keeps the promise as long as no entity is touched by two pending operations. A flush
takes what the first of two such operations got into account when it comes to the second one. The
preview composes both from the same entity. So if two relationships with a common new end are saved,
then in the preview both statements create the end. In the flush the second one looks it up.

## Main definitions

* `Mapper.Forecasts`: what a preview says of the flush that follows it.

## Main results

* `Mapper.queries_forecast`: a preview lists what sending executes if nothing is touched twice, and
  only if nothing is touched by two operations that need a statement.
* `Mapper.queries_repeats_creation`: a preview that creates a shared end twice.
-/

namespace GraphMapping

variable {σ : Type}

namespace Mapper

/-- What a preview says of the flush that follows it. -/
structure Forecasts (mapper : Mapper σ) (m m' : Moment) : Prop where
  /-- The preview leaves the mapper as it is. -/
  untouched : (mapper.queries m).2 = mapper
  /-- If no entity is touched by two pending operations, then it lists what the flush executes. -/
  apart : mapper.work.operations.Pairwise (Operation.Apart mapper.store) →
    (mapper.queries m).1 = .ok ((mapper.queries m).2.executed m')
  /-- If it does, then no entity is touched by two operations that need a statement. -/
  shared : (mapper.queries m).1 = .ok ((mapper.queries m).2.executed m') →
    mapper.work.operations.Pairwise fun op op' =>
      op.Needed mapper.store → op'.Needed mapper.store → op.Apart mapper.store op'

variable {mapper : Mapper σ} {m m' : Moment} {response : Response}

theorem forecasts_of_named (hhooks : mapper.hooks.size = 0)
    (hnamed : mapper.store.NamedBy mapper.work.names)
    (hconstant : ∀ key e, mapper.store.get? key = some e → e.IsConstant)
    (hok : (mapper.send m').1 = .ok response) : mapper.Forecasts m m' := by
  have huntouched := mapper.queries_untouched m
  have htimeless : mapper.store.Timeless m' m := fun key e he => (hconstant key e he).data m' m _
  have hpreview : (mapper.queries m).1 =
      (composeAll m' mapper.store mapper.work.names mapper.work.operations).outcome := by
    rw [← composeAll_congr htimeless]
    rfl
  have hexecuted : (mapper.queries m).2.executed m' =
      (mapper.executions m').map (·.statement) := by
    rw [huntouched, executed_eq (Hooks.restrained_of_size hhooks)]
  constructor
  case untouched => exact huntouched
  case apart =>
    intro hapart
    obtain ⟨st, hrun⟩ := exists_runOperations hok
    rw [hpreview, hexecuted]
    exact outcome_composeAll_of_apart hhooks hapart hrun
  case shared =>
    intro hsame
    rw [hpreview, hexecuted] at hsame
    exact apart_of_composeAll hnamed hsame (executions_apart hhooks hnamed mapper.work.operations)

/-- **A preview is right about what is touched once.** Whatever is done with a mapper without hooks
whose data does not depend on the moment, if the pending work is previewed and then sent with
success, the preview lists the statements that are executed, as long as no entity is touched by two
pending operations. If two operations that need a statement touch the same entity, then it does not
list them. -/
theorem queries_forecast (settings : MapperSettings) (connection : Connection) (app : σ)
    (actions : List (Action σ)) (m m' : Moment) {response : Response} :
    let mapper := (new settings connection app).run actions
    mapper.hooks.size = 0 → (∀ key e, mapper.store.get? key = some e → e.IsConstant) →
      ((mapper.queries m).2.send m').1 = .ok response → mapper.Forecasts m m' := by
  intro mapper hhooks hconstant hok
  have hnamed := (orderly_run (orderly_new settings connection app) actions).numbered.namedBy
  rw [queries_untouched] at hok
  exact forecasts_of_named hhooks hnamed hconstant hok

/-- Answers two statements with a node for each variable that they return. -/
def hospitable : Connection :=
  ⟨List.replicate 2 fun s => .ok ⟨[.ofList (s.returns.map (·, .node ⟨8, [], .empty⟩))]⟩, []⟩

/-- A relationship from a new node to a bare id is saved, and another node is deleted. -/
def separately : List (Action Unit) :=
  [.create "Node" .node {},
    .create "Knows" .relationship { start := some (.entity ⟨0⟩), finish := some (.id 2) },
    .create "Node" .node { id := some 5 }, .edit ⟨0⟩ (.ofCommands [.assign "age" (.integer 3)]),
    .request (.save .epoch ⟨1⟩), .request (.delete ⟨2⟩ true)]

/-- The preview lists both statements. -/
theorem queries_forecast_separately :
    let mapper := (new {} hospitable ()).run separately
    mapper.hooks.size = 0 ∧ (∀ key e, mapper.store.get? key = some e → e.IsConstant) ∧
      (∃ response, ((mapper.queries .epoch).2.send .epoch).1 = .ok response) ∧
      mapper.Forecasts .epoch .epoch ∧
      mapper.work.operations.Pairwise (Operation.Apart mapper.store) ∧
      ∃ s s', (mapper.queries .epoch).1 = .ok [s, s'] := by
  intro mapper
  have hconstant : ∀ key e, mapper.store.get? key = some e → e.IsConstant :=
    fun _ _ => Store.isConstant_of_isFixed (by decide +kernel)
  obtain ⟨response, hok⟩ : ∃ response, ((mapper.queries .epoch).2.send .epoch).1 = .ok response :=
    Except.isOk_iff.mp (by decide +kernel)
  have hpending : mapper.work.operations = [⟨⟨1⟩, .save, .scheduled, []⟩,
      ⟨⟨2⟩, .delete true, .scheduled, []⟩] := by decide +kernel
  have hapart : mapper.work.operations.Pairwise (Operation.Apart mapper.store) := by
    rw [hpending, List.pairwise_pair]
    decide +kernel
  exact ⟨rfl, hconstant, ⟨response, hok⟩,
    queries_forecast {} hospitable () separately .epoch .epoch rfl hconstant hok, hapart, _, _, rfl⟩

/-- Two relationships from a new node are saved. -/
def together : List (Action Unit) :=
  [.create "Node" .node {},
    .create "Knows" .relationship { start := some (.entity ⟨0⟩), finish := some (.id 2) },
    .create "Knows" .relationship { start := some (.entity ⟨0⟩), finish := some (.id 3) },
    .request (.save .epoch ⟨1⟩), .request (.save .epoch ⟨2⟩)]

/-- **A preview that is wrong.** The statement of the second relationship has the variable of the
new node in the preview, which creates the node once more. The statement that is executed looks the
node up by another variable. -/
theorem queries_repeats_creation :
    let mapper := (new {} hospitable ()).run together
    mapper.hooks.size = 0 ∧ (∀ key e, mapper.store.get? key = some e → e.IsConstant) ∧
      (∃ response, ((mapper.queries .epoch).2.send .epoch).1 = .ok response) ∧
      ∃ s previewed executed, (mapper.queries .epoch).1 = .ok [s, previewed] ∧
        (mapper.queries .epoch).2.executed .epoch = [s, executed] ∧
        previewed.text =
          "MATCH (n2) CREATE (n0:Node)-[r1:Knows]->(n2) WHERE id(n2) = $n2_id_1 RETURN n0, r1" ∧
        executed.text = "MATCH (n2), (n3) CREATE (n2)-[r1:Knows]->(n3) " ++
          "WHERE id(n2) = $n2_id_1 AND id(n3) = $n3_id_2 RETURN n2, r1" := by
  refine ⟨rfl, fun _ _ => Store.isConstant_of_isFixed (by decide +kernel),
    Except.isOk_iff.mp (by decide +kernel), _, _, _, rfl, rfl, by decide +kernel, by decide +kernel⟩

end Mapper

end GraphMapping
