import GraphMapping.Connection.Bolt
import GraphMapping.Proofs.Except

/-!
# The columns that come back

The records of an answer become rows column by column, and only the columns that the statement
returns are looked at. So a row binds exactly the variables that the statement tracks. What else is
in the answer is dropped without a word, while a tracked variable that is no column is an error.

A hand-written statement tracks nothing. Whatever it is answered, its rows are empty.

## Main definitions

* `Bolt.Table.value?`: what a record holds in a column.
* `Bolt.Table.Complete`: every record has all tracked columns.
* `Bolt.Table.Reads`: rows bind the tracked columns and nothing else.
* `Statement.handwritten`: a hand-written statement with parameters.

## Main results

* `Bolt.exists_decode_iff`: an answer is decoded exactly if it is complete.
* `Bolt.Table.reads_of_decode`: what it is decoded to.
* `Bolt.decode_eq_error`: what is reported otherwise.
-/

namespace GraphMapping

namespace Bolt

/-- What a record of the answer holds in a column. -/
def Table.value? (table : Table) (record : List Bolt) (name : String) : Option GraphValue :=
  ((columns table.fields record).get? name).map toGraphValue

/-- Every record has all of the columns. -/
def Table.Complete (table : Table) (returns : List String) : Prop :=
  ∀ record ∈ table.records, ∀ name ∈ returns, (table.value? record name).isSome

/-- A row for each record, which binds the given variables to what the record holds, and no
others. -/
def Table.Reads (table : Table) (returns : List String) (rows : List Row) : Prop :=
  List.Forall₂ (fun record row => ∀ name,
    row.get? name = if name ∈ returns then table.value? record name else none) table.records rows

/-! ### One record -/

section Row

variable {columns : Dict Bolt} {returns : List String} {row row' : Row}

theorem get?_decodeRow (h : decodeRow columns returns row = .ok row') (name : String) :
    row'.get? name =
      if name ∈ returns then (columns.get? name).map toGraphValue else row.get? name := by
  induction returns generalizing row with
  | nil =>
    obtain rfl := Except.ok.inj h
    rfl
  | cons first rest ih =>
    rw [decodeRow] at h
    cases hfirst : columns.get? first with
    | none => simp [hfirst] at h
    | some value =>
      rw [hfirst] at h
      rw [ih h]
      by_cases hname : name = first
      · subst hname
        rw [if_pos List.mem_cons_self, Dict.get?_insert_self, hfirst, Option.map_some, ite_self]
      · rw [Dict.get?_insert_of_ne row hname]
        simp only [List.mem_cons, hname, false_or]

/-- All variables have to be columns. -/
theorem exists_decodeRow_iff : (∃ row', decodeRow columns returns row = .ok row') ↔
    ∀ name ∈ returns, (columns.get? name).isSome := by
  induction returns generalizing row with
  | nil => simp [decodeRow]
  | cons first rest ih =>
    rw [decodeRow, List.forall_mem_cons]
    cases columns.get? first with
    | none => simp
    | some value => simp [ih]

theorem decodeRow_eq_error {err : ConnectionError} (h : decodeRow columns returns row = .error err) :
    ∃ name ∈ returns, columns.get? name = none ∧
      err = .decode name "The property does not exist" := by
  induction returns generalizing row with
  | nil => exact nomatch h
  | cons first rest ih =>
    rw [decodeRow] at h
    cases hfirst : columns.get? first with
    | none =>
      rw [hfirst] at h
      exact ⟨first, List.mem_cons_self, hfirst, (Except.error.inj h).symm⟩
    | some value =>
      rw [hfirst] at h
      obtain ⟨name, hname, hmissing⟩ := ih h
      exact ⟨name, List.mem_cons_of_mem _ hname, hmissing⟩

end Row

/-! ### An answer -/

section Table

variable {table : Table} {returns : List String} {result : QueryResult}

/-- An answer is decoded when no record lacks a column. What the cells hold makes no difference:
every piece of data becomes some value, so decoding can fail on names only. -/
theorem exists_decode_iff :
    (∃ result, decode returns table = .ok result) ↔ table.Complete returns := by
  have hrecord : ∀ record, (∃ row, decodeRow (columns table.fields record) returns .empty = .ok row)
      ↔ ∀ name ∈ returns, (table.value? record name).isSome := by
    intro record
    simp only [exists_decodeRow_iff, Table.value?, Option.isSome_map]
  rw [Table.Complete, decode]
  simp only [← hrecord, ← List.isOk_mapM_iff]
  cases table.records.mapM fun record => decodeRow (columns table.fields record) returns .empty <;>
    simp [Except.map]

theorem Table.reads_of_decode (h : decode returns table = .ok result) :
    table.Reads returns result.rows := by
  rw [decode] at h
  cases hrows : table.records.mapM fun record =>
      decodeRow (columns table.fields record) returns .empty with
  | error err => simp [hrows, Except.map] at h
  | ok rows =>
    rw [hrows] at h
    obtain rfl := Except.ok.inj h
    exact (List.mapM_eq_ok_iff.mp hrows).imp fun record row hrow name => get?_decodeRow hrow name

/-- A record that lacks a column is reported by the name of the column. As nothing else is refused,
this is the only error that decoding has. -/
theorem decode_eq_error {err : ConnectionError} (h : decode returns table = .error err) :
    ∃ record ∈ table.records, ∃ name ∈ returns, table.value? record name = none ∧
      err = .decode name "The property does not exist" := by
  rw [decode] at h
  cases hrows : table.records.mapM fun record =>
      decodeRow (columns table.fields record) returns .empty with
  | ok rows => simp [hrows, Except.map] at h
  | error err' =>
    rw [hrows] at h
    obtain rfl := Except.error.inj h
    obtain ⟨record, hrecord, hrow⟩ := List.exists_of_mapM_eq_error hrows
    obtain ⟨name, hname, hmissing, rfl⟩ := decodeRow_eq_error hrow
    exact ⟨record, hrecord, name, hname, by rw [Table.value?, hmissing, Option.map_none], rfl⟩

/-- The rows of a statement that tracks nothing are empty. There is still one for each record, so
that their number is what is left of the answer to a statement written by hand. -/
theorem decode_nil (table : Table) :
    decode [] table = .ok ⟨table.records.map fun _ => .empty⟩ := by
  have hrows : table.records.mapM (fun record =>
      decodeRow (columns table.fields record) [] .empty) =
        .ok (table.records.map fun _ => .empty) := by
    rw [List.mapM_eq_ok_iff, List.forall₂_map_right_iff, List.forall₂_same]
    exact fun _ _ => rfl
  rw [decode, hrows]
  rfl

/-- The values in the rows are those of the tracked columns. -/
theorem Table.Reads.exists_iff {rows : List Row} (h : table.Reads returns rows)
    {value : GraphValue} : (∃ row ∈ rows, ∃ name, row.get? name = some value) ↔
      ∃ record ∈ table.records, ∃ name ∈ returns, table.value? record name = some value := by
  rw [Reads] at h
  generalize table.records = records at h ⊢
  induction h with
  | nil => simp
  | @cons record row records rows hrow hrest ih =>
    have hhere : (∃ name, row.get? name = some value) ↔
        ∃ name ∈ returns, table.value? record name = some value := by
      refine exists_congr fun name => ?_
      rw [hrow name]
      split <;> simp_all
    simp only [List.exists_mem_cons_iff, ih, hhere]

end Table

end Bolt

/-! ### Hand-written statements -/

namespace Statement

/-- A hand-written statement with some parameters, of which a later one replaces an earlier one of
the same name. -/
def handwritten (text : String) (params : List (String × Value)) : Statement :=
  params.foldl (fun statement pair => statement.bindParam pair.1 pair.2) (raw text)

/-- Binding parameters changes nothing about what is tracked. No way of making a statement by hand
has it return anything, whatever its text asks for. -/
theorem returns_handwritten (text : String) (params : List (String × Value)) :
    (handwritten text params).returns = [] := by
  rw [handwritten]
  have hbound : ∀ statement : Statement,
      (params.foldl (fun statement pair => statement.bindParam pair.1 pair.2) statement).returns =
        statement.returns := by
    induction params with
    | nil => exact fun _ => rfl
    | cons pair rest ih => exact fun statement => ih (statement.bindParam pair.1 pair.2)
  exact hbound (raw text)

end Statement

end GraphMapping
