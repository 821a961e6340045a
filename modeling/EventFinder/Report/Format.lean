import EventFinder.Text

/-!
# Report formats

The formats in which a report can be written, with the names that settings and the command line have
for them.
-/

set_option autoImplicit false

namespace EventFinder

/-- The formats of a report. -/
inductive ReportFormat where
  | text
  | json
  | csv
  deriving DecidableEq, Repr

namespace ReportFormat

/-- Every format. -/
def all : List ReportFormat :=
  [text, json, csv]

/-- The name of the format on the command line and in settings. -/
def name : ReportFormat → Text
  | text => "text".toList
  | json => "json".toList
  | csv => "csv".toList

/-- The format with the given name, in lower case. -/
def ofName? (name : Text) : Option ReportFormat :=
  all.find? fun format => format.name = name

/-- Whether the format is meant for other programs instead of people. -/
def isMachineReadable : ReportFormat → Bool
  | text => false
  | json | csv => true

/-- A format is found by its name. -/
theorem ofName?_name (format : ReportFormat) : ofName? format.name = some format := by
  cases format <;> decide

end ReportFormat

end EventFinder
