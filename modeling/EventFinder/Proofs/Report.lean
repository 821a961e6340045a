import EventFinder.Proofs.Csv
import EventFinder.Report

/-!
# Writing reports

A report can be written of every batch and every outcome, whatever text is in it (`Batch.write_eq`,
`Outcome.write_eq`). For tables that is because the row of a record and the row of an error have as
many fields as the header (`Outcome.length_row`).
-/

set_option autoImplicit false

namespace EventFinder

/-- The row of an outcome has one field for each column. -/
theorem Outcome.length_row (outcome : Outcome) : outcome.row.length = columnNames.length := by
  cases hresult : outcome.result with
  | ok record => simp [row, hresult, columnNames]
  | error e => simp [row, hresult, columnNames]

/-- The table of any outcomes can be written, for all its rows have ten fields. -/
theorem writeTable_eq (outcomes : List Outcome) :
    writeTable outcomes = .ok (outcomeTable outcomes) := by
  refine Csv.write_eq_ok_iff.2 ⟨?_, rfl⟩
  intro fields hfields
  obtain ⟨outcome, -, rfl⟩ := List.mem_map.1 hfields
  exact outcome.length_row

/-- The report on an outcome can be written in every style. -/
theorem Outcome.write_eq (style : ReportStyle) (outcome : Outcome) :
    outcome.write style = .ok (outcome.report style) := by
  cases style with
  | csv => exact writeTable_eq [outcome]
  | _ => rfl

/-- The report on a batch can be written in every style. -/
theorem Batch.write_eq (style : ReportStyle) (batch : Batch) :
    batch.write style = .ok (batch.report style) := by
  cases style with
  | csv => exact writeTable_eq batch.outcomes
  | _ => rfl

end EventFinder
