import EventFinder.Proofs.Csv.Reader
import EventFinder.Proofs.Report
import Mathlib.Data.List.Forall2

/-!
# What a table of outcomes says

A program that reads the table of a batch gets the header and a row of ten fields for each outcome,
in the order of the batch (`Batch.table_reads_back`). What stands in which column is said in
`Outcome.IsTabulatedAs`.
-/

set_option autoImplicit false

namespace EventFinder

/-- The row has ten fields, and under the names of the columns they say what the outcome is. -/
def Outcome.IsTabulatedAs (outcome : Outcome) (row : List Text) : Prop :=
  row.length = 10 ∧ columnNames.zip row =
    match outcome.result with
    | .ok record => [
        ("location".toList, outcome.location),
        ("year".toList, Text.ofInt record.year),
        ("month".toList, Text.ofInt record.month),
        ("day".toList, Text.ofInt record.day),
        ("month_name".toList, record.monthName),
        ("performers".toList, "; ".toList.intercalate record.performers),
        ("venue".toList, record.venue),
        ("promoters".toList, "; ".toList.intercalate record.promoters),
        ("consistent".toList, if record.consistent then "true".toList else "false".toList),
        ("error".toList, [])]
    | .error e => [
        ("location".toList, outcome.location),
        ("year".toList, []),
        ("month".toList, []),
        ("day".toList, []),
        ("month_name".toList, []),
        ("performers".toList, []),
        ("venue".toList, []),
        ("promoters".toList, []),
        ("consistent".toList, []),
        ("error".toList, e.message)]

/-- The row of an outcome says in each column what the outcome is. -/
theorem Outcome.isTabulatedAs_row (outcome : Outcome) : outcome.IsTabulatedAs outcome.row := by
  refine ⟨outcome.length_row, ?_⟩
  cases hresult : outcome.result with
  | ok record =>
    have hconsistent : Text.ofBool record.consistent =
        if record.consistent then "true".toList else "false".toList := by
      cases record.consistent <;> rfl
    simp only [row, hresult, hconsistent]
    rfl
  | error e =>
    rw [row, hresult]
    rfl

/-- The table of every batch can be written, also byte by byte, and is read back as the header and
one row for each outcome that says what the outcome is. -/
theorem Batch.table_reads_back (batch : Batch) :
    ∃ text, batch.write .csv = .ok text ∧
      Csv.writtenText? (columnNames :: batch.outcomes.map Outcome.row) = some (.ok text) ∧
      ∃ rows, Csv.read? text = some (columnNames :: rows) ∧
        List.Forall₂ Outcome.IsTabulatedAs batch.outcomes rows := by
  have hwritten : batch.write .csv = .ok (outcomeTable batch.outcomes) := batch.write_eq .csv
  refine ⟨outcomeTable batch.outcomes, hwritten, ?_, batch.outcomes.map Outcome.row, ?_, ?_⟩
  · rw [Csv.writtenText?_eq]
    exact congrArg some hwritten
  · apply Csv.read?_table
    intro fields hfields
    obtain rfl | hfields := List.mem_cons.1 hfields
    · exact List.cons_ne_nil _ _
    · obtain ⟨outcome, -, rfl⟩ := List.mem_map.1 hfields
      exact List.ne_nil_of_length_eq_add_one outcome.length_row
  · rw [List.forall₂_map_right_iff, List.forall₂_same]
    exact fun outcome _ => outcome.isTabulatedAs_row

end EventFinder
