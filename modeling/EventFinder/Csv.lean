import EventFinder.Text.Number

/-!
# Comma separated values

A table is written as rows of fields: commas between the fields of a row and a line feed behind
every row. A field that holds a comma, a quote or a line end stands in quotes, and its quotes are
doubled; every other field is written as it is.

A table has as many fields in every row as in its first one: `write` refuses a row with more or
fewer.
-/

set_option autoImplicit false

namespace EventFinder

namespace Csv

/-- Whether a field with this character stands in quotes. -/
def isSpecial (c : Char) : Bool :=
  c = ',' || c = '"' || c = '\r' || c = '\n'

/-- A character inside quotes. -/
def double (c : Char) : Text :=
  if c = '"' then ['"', '"'] else [c]

/-- A field as it is written. -/
def field (text : Text) : Text :=
  if text.any isSpecial then '"' :: text.flatMap double ++ ['"'] else text

/-- A row as it is written. -/
def row (fields : List Text) : Text :=
  Text.line ([','].intercalate (fields.map field))

/-- A table as it is written. -/
def table (rows : List (List Text)) : Text :=
  rows.flatMap row

/-- A row that has not as many fields as the rows above it. -/
structure UnequalRow where
  /-- The number of fields of the rows above. -/
  expected : Nat
  /-- The number of fields of the row. -/
  found : Nat
  deriving DecidableEq, Repr

/-- The error in words. -/
def UnequalRow.message (error : UnequalRow) : Text :=
  "CSV error: found record with ".toList ++ Text.ofNat error.found ++
    " fields, but the previous record has ".toList ++ Text.ofNat error.expected ++
    " fields".toList

/-- Writes rows below one with the given number of fields, in the given way to write a row. -/
def writeBelow {α : Type} (row : List Text → List α) (width : Nat) :
    List (List Text) → Except UnequalRow (List α)
  | [] => .ok []
  | fields :: rest =>
    if fields.length = width then (writeBelow row width rest).map (row fields ++ ·)
    else .error ⟨width, fields.length⟩

/-- Writes rows, the first of which decides the number of fields. -/
def writeRows {α : Type} (row : List Text → List α) :
    List (List Text) → Except UnequalRow (List α)
  | [] => .ok []
  | header :: rest => (writeBelow row header.length rest).map (row header ++ ·)

/-- Writes a table. -/
def write (rows : List (List Text)) : Except UnequalRow Text :=
  writeRows row rows

end Csv

end EventFinder
