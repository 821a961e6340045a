import EventFinder.Batch
import EventFinder.Csv
import EventFinder.Json
import EventFinder.Location.Event
import EventFinder.Report.Format
import EventFinder.Report.Paint

/-!
# Reports

The outcomes of a batch are reported as lines for people, as JSON or as comma separated values.
Lines and rows show one outcome each, in the order of the batch; the JSON report holds the tally as
well. The summary of a batch is text in every format.

A table of outcomes is written row by row, and a row of another length than the header would be
refused (`writeTable`). Lines and JSON can be written of everything.
-/

set_option autoImplicit false

namespace EventFinder

/-- A report format with the choices that it leaves open. -/
inductive ReportStyle where
  /-- Lines for people, with paint or without. -/
  | lines (painted : Bool)
  /-- JSON in one of its layouts. -/
  | json (layout : Json.Layout)
  /-- Comma separated values under a header. -/
  | csv
  deriving DecidableEq, Repr

/-- The style of the reports in a format. -/
def ReportFormat.style (painted : Bool) : ReportFormat → ReportStyle
  | .text => .lines painted
  | .json => .json .spread
  | .csv => .csv

namespace EventRecord

/-- The record on one line. -/
def line (painted : Bool) (record : EventRecord) : Text :=
  "year=".toList ++ Text.ofInt record.year ++
  " month=".toList ++ Text.ofInt record.month ++
  " day=".toList ++ Text.ofInt record.day ++
  " month_name=".toList ++ record.monthName ++
  " performers=[".toList ++ listSeparator.intercalate record.performers ++
  "] venue=".toList ++ record.venue ++
  " promoters=[".toList ++ listSeparator.intercalate record.promoters ++ [']'] ++
  if record.consistent then []
  else ' ' :: Paint.yellow.apply painted "(inconsistent)".toList

/-- The record as a JSON object, its members in the order of their names. -/
def json (record : EventRecord) : Json :=
  .object [
    ("consistent".toList, .bool record.consistent),
    ("day".toList, .number record.day),
    ("month".toList, .number record.month),
    ("month_name".toList, .string record.monthName),
    ("performers".toList, .array (record.performers.map .string)),
    ("promoters".toList, .array (record.promoters.map .string)),
    ("venue".toList, .string record.venue),
    ("year".toList, .number record.year)]

end EventRecord

namespace Outcome

/-- The outcome on one line. -/
def line (painted : Bool) (outcome : Outcome) : Text :=
  let location := Paint.cyan.apply painted outcome.location
  match outcome.result with
  | .ok record =>
    "  Parsed Data: ".toList ++ location ++ ": ".toList ++ record.line painted
  | .error e =>
    "  ".toList ++ Paint.red.apply painted "Error parsing location".toList ++ [' '] ++ location ++
      ": ".toList ++ e.message

/-- The outcome as a JSON object, its members in the order of their names. -/
def json (outcome : Outcome) : Json :=
  .object [
    ("error".toList, .ofOption (fun e => .string e.message) outcome.error?),
    ("location".toList, .string outcome.location),
    ("path".toList, .string (Path.shown outcome.path)),
    ("record".toList, .ofOption EventRecord.json outcome.record?)]

/-- The separator between the names of a list inside one field of a row. -/
def rowListSeparator : Text := "; ".toList

/-- The outcome as a row: a failure has no fields between its location and its error. -/
def row (outcome : Outcome) : List Text :=
  match outcome.result with
  | .ok record =>
    [outcome.location, Text.ofInt record.year, Text.ofInt record.month, Text.ofInt record.day,
     record.monthName, rowListSeparator.intercalate record.performers, record.venue,
     rowListSeparator.intercalate record.promoters, Text.ofBool record.consistent, []]
  | .error e => outcome.location :: List.replicate 8 [] ++ [e.message]

end Outcome

/-- The names of the columns of a table of outcomes. -/
def columnNames : List Text :=
  ["location".toList, "year".toList, "month".toList, "day".toList, "month_name".toList,
   "performers".toList, "venue".toList, "promoters".toList, "consistent".toList, "error".toList]

/-- The table of outcomes under its header. -/
def outcomeTable (outcomes : List Outcome) : Text :=
  Csv.table (columnNames :: outcomes.map Outcome.row)

/-- Writes the table of outcomes under its header. -/
def writeTable (outcomes : List Outcome) : Except Csv.UnequalRow Text :=
  Csv.write (columnNames :: outcomes.map Outcome.row)

/-- The report on one outcome. -/
def Outcome.report (style : ReportStyle) (outcome : Outcome) : Text :=
  match style with
  | .lines painted => outcome.line painted
  | .json layout => outcome.json.text layout
  | .csv => outcomeTable [outcome]

/-- Writes the report on one outcome. -/
def Outcome.write (style : ReportStyle) (outcome : Outcome) : Except Csv.UnequalRow Text :=
  match style with
  | .csv => writeTable [outcome]
  | _ => .ok (outcome.report style)

namespace Batch

/-- The batch as a JSON object, its members in the order of their names. -/
def json (batch : Batch) : Json :=
  .object [
    ("outcomes".toList, .array (batch.outcomes.map Outcome.json)),
    ("summary".toList, .object [
      ("failed".toList, .number batch.failed),
      ("inconsistent".toList, .number batch.inconsistent),
      ("successful".toList, .number batch.successful),
      ("total".toList, .number batch.total)])]

/-- The report on all outcomes. -/
def report (style : ReportStyle) (batch : Batch) : Text :=
  match style with
  | .lines painted => ['\n'].intercalate (batch.outcomes.map (Outcome.line painted))
  | .json layout => batch.json.text layout
  | .csv => outcomeTable batch.outcomes

/-- Writes the report on all outcomes. -/
def write (style : ReportStyle) (batch : Batch) : Except Csv.UnequalRow Text :=
  match style with
  | .csv => writeTable batch.outcomes
  | _ => .ok (batch.report style)

/-- The tally in words, its numbers in one column. -/
def summary (batch : Batch) : Text :=
  Text.line [] ++
  Text.line "--- Parsing Summary ---".toList ++
  Text.line ("Successfully parsed: ".toList ++ Text.ofNat batch.successful) ++
  Text.line ("Inconsistent data:   ".toList ++ Text.ofNat batch.inconsistent) ++
  Text.line ("Failed to parse:     ".toList ++ Text.ofNat batch.failed)

end Batch

end EventFinder
