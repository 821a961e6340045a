import EventFinder.Csv

/-!
# Reading tables

A reader of comma separated values, character by character. A field is plain, or stands in quotes
that double the ones inside it; a comma ends a field and a line feed a row. A quote inside a plain
field, text behind the closing quote and a carriage return outside quotes are refused.

What a reader has read is complete rows, the complete fields of the row that it is in, and a field
that may not be complete (`Reader`). One field is read in `run?_field`, from any such state, then a
row in `run?_row` and a table in `run?_table`. So every table of rows that are not empty is read
back as it was written, whatever its fields hold (`read?_table`).
-/

set_option autoImplicit false

namespace EventFinder

namespace Csv

/-- Where in a field a reader is. -/
inductive Place where
  /-- In front of its first character. -/
  | start
  /-- In a field without quotes. -/
  | plain
  /-- Inside the quotes. -/
  | quoted
  /-- Behind a quote that ends the field, if no second one follows. -/
  | quote
  deriving DecidableEq, Repr

/-- What was read of a table. -/
structure Reader where
  /-- The rows that are complete. -/
  rows : List (List Text)
  /-- The fields of the next row that are complete. -/
  fields : List Text
  /-- The next field as far as it was read. -/
  content : Text
  /-- Where in that field the reader is. -/
  place : Place
  deriving DecidableEq, Repr

namespace Reader

/-- Nothing was read yet. -/
def empty : Reader := ⟨[], [], [], .start⟩

/-- The field goes on with a character. -/
def add (place : Place) (c : Char) (reader : Reader) : Reader :=
  { reader with content := reader.content ++ [c], place := place }

/-- The field is complete. -/
def closeField (reader : Reader) : Reader :=
  ⟨reader.rows, reader.fields ++ [reader.content], [], .start⟩

/-- The field and its row are complete. -/
def closeRow (reader : Reader) : Reader :=
  ⟨reader.rows ++ [reader.fields ++ [reader.content]], [], [], .start⟩

/-- Reads a character that ends the field. -/
def close? (reader : Reader) (c : Char) : Option Reader :=
  if c = ',' then some reader.closeField
  else if c = '\n' then some reader.closeRow
  else none

/-- Reads a character. -/
def step? (reader : Reader) (c : Char) : Option Reader :=
  match reader.place with
  | .start =>
    if c = '"' then some { reader with place := .quoted }
    else if isSpecial c then reader.close? c
    else some (reader.add .plain c)
  | .plain => if isSpecial c then reader.close? c else some (reader.add .plain c)
  | .quoted => some (if c = '"' then { reader with place := .quote } else reader.add .quoted c)
  | .quote => if c = '"' then some (reader.add .quoted c) else reader.close? c

/-- Reads a text. -/
def run? (reader : Reader) (text : Text) : Option Reader :=
  text.foldlM step? reader

/-- The rows that were read, if the text ends here. The last row may end without a line feed. -/
def rows? (reader : Reader) : Option (List (List Text)) :=
  if reader.place = .quoted then none
  else if reader.place = .start ∧ reader.fields = [] then some reader.rows
  else some reader.closeRow.rows

end Reader

/-- The rows of a table, if the text is one. -/
def read? (text : Text) : Option (List (List Text)) :=
  (Reader.empty.run? text).bind Reader.rows?

namespace Reader

/-- No text leaves the reader where it is. -/
theorem run?_nil (reader : Reader) : reader.run? [] = some reader := rfl

/-- A text is read from its first character on. -/
theorem run?_cons (reader : Reader) (c : Char) (text : Text) :
    reader.run? (c :: text) = (reader.step? c).bind (run? · text) := rfl

/-- What is read from a text in two parts is read from its front and then from its back. -/
theorem run?_append (reader : Reader) (front back : Text) :
    reader.run? (front ++ back) = (reader.run? front).bind (run? · back) :=
  List.foldlM_append

/-! ## One field -/

/-- Outside quotes a comma ends the field. -/
theorem step?_comma {reader : Reader} (hplace : reader.place ≠ .quoted) :
    reader.step? ',' = some reader.closeField := by
  unfold step?
  cases hreader : reader.place with
  | quoted => exact absurd hreader hplace
  | _ => rfl

/-- Outside quotes a line feed ends the field and the row. -/
theorem step?_lineFeed {reader : Reader} (hplace : reader.place ≠ .quoted) :
    reader.step? '\n' = some reader.closeRow := by
  unfold step?
  cases hreader : reader.place with
  | quoted => exact absurd hreader hplace
  | _ => rfl

/-- Text without special characters goes on with a plain field. -/
theorem run?_plain (rows : List (List Text)) (fields : List Text) (content text : Text)
    (htext : ∀ c ∈ text, isSpecial c = false) :
    run? ⟨rows, fields, content, .plain⟩ text = some ⟨rows, fields, content ++ text, .plain⟩ := by
  induction text generalizing content with
  | nil => rw [run?_nil, List.append_nil]
  | cons c rest ih =>
    obtain ⟨hc, hrest⟩ := List.forall_mem_cons.1 htext
    have hstep : step? ⟨rows, fields, content, .plain⟩ c =
        some ⟨rows, fields, content ++ [c], .plain⟩ := by
      simp [step?, hc, add]
    rw [run?_cons, hstep, Option.bind_some, ih _ hrest, List.append_assoc, List.singleton_append]

/-- One character inside quotes is read back, whether it is doubled or not. -/
theorem run?_double (rows : List (List Text)) (fields : List Text) (content : Text) (c : Char) :
    run? ⟨rows, fields, content, .quoted⟩ (double c) =
      some ⟨rows, fields, content ++ [c], .quoted⟩ := by
  by_cases hc : c = '"'
  · subst hc
    rfl
  · simp [double, hc, run?_cons, run?_nil, step?, add]

/-- Text inside quotes is read back. -/
theorem run?_doubled (rows : List (List Text)) (fields : List Text) (content text : Text) :
    run? ⟨rows, fields, content, .quoted⟩ (text.flatMap double) =
      some ⟨rows, fields, content ++ text, .quoted⟩ := by
  induction text generalizing content with
  | nil => rw [List.flatMap_nil, run?_nil, List.append_nil]
  | cons c rest ih =>
    rw [List.flatMap_cons, run?_append, run?_double, Option.bind_some, ih, List.append_assoc,
      List.singleton_append]

/-- A field is read up to a place where it can end. -/
theorem run?_field (rows : List (List Text)) (fields : List Text) (text : Text) :
    ∃ place ≠ Place.quoted,
      run? ⟨rows, fields, [], .start⟩ (field text) = some ⟨rows, fields, text, place⟩ := by
  by_cases hspecial : text.any isSpecial
  · refine ⟨.quote, by decide, ?_⟩
    have hopened : step? ⟨rows, fields, [], .start⟩ '"' = some ⟨rows, fields, [], .quoted⟩ := rfl
    rw [field, if_pos hspecial, List.cons_append, run?_cons, hopened, Option.bind_some,
      run?_append, run?_doubled]
    rfl
  · have hplain : ∀ c ∈ text, isSpecial c = false := by
      simpa using hspecial
    rw [field, if_neg hspecial]
    cases text with
    | nil => exact ⟨.start, by decide, rfl⟩
    | cons c rest =>
      obtain ⟨hc, hrest⟩ := List.forall_mem_cons.1 hplain
      have hquote : c ≠ '"' := by
        rintro rfl
        exact absurd hc (by decide)
      have hstep : step? ⟨rows, fields, [], .start⟩ c = some ⟨rows, fields, [c], .plain⟩ := by
        simp [step?, hc, hquote, add]
      refine ⟨.plain, by decide, ?_⟩
      rw [run?_cons, hstep, Option.bind_some, run?_plain _ _ _ _ hrest, List.singleton_append]

/-! ## Rows and tables -/

/-- A field and its comma add the field to those of the row. -/
theorem run?_field_comma (rows : List (List Text)) (fields : List Text) (text : Text) :
    run? ⟨rows, fields, [], .start⟩ (field text ++ [',']) =
      some ⟨rows, fields ++ [text], [], .start⟩ := by
  obtain ⟨place, hplace, hfield⟩ := run?_field rows fields text
  rw [run?_append, hfield, Option.bind_some, run?_cons, step?_comma hplace]
  rfl

/-- A field and its line feed complete the row. -/
theorem run?_field_lineFeed (rows : List (List Text)) (fields : List Text) (text : Text) :
    run? ⟨rows, fields, [], .start⟩ (field text ++ ['\n']) =
      some ⟨rows ++ [fields ++ [text]], [], [], .start⟩ := by
  obtain ⟨place, hplace, hfield⟩ := run?_field rows fields text
  rw [run?_append, hfield, Option.bind_some, run?_cons, step?_lineFeed hplace]
  rfl

/-- A row completes the fields that were read before it. -/
theorem run?_row (rows : List (List Text)) (fields texts : List Text) (hne : texts ≠ []) :
    run? ⟨rows, fields, [], .start⟩ (row texts) =
      some ⟨rows ++ [fields ++ texts], [], [], .start⟩ := by
  induction texts generalizing fields with
  | nil => exact absurd rfl hne
  | cons text rest ih =>
    cases rest with
    | nil => simpa only [row, Text.line, List.map_singleton, List.intercalate_singleton] using
        run?_field_lineFeed rows fields text
    | cons next rest =>
      have hrow : row (text :: next :: rest) = (field text ++ [',']) ++ row (next :: rest) := by
        simp [row, Text.line]
      rw [hrow, run?_append, run?_field_comma, Option.bind_some, ih _ (by simp), List.append_assoc,
        List.singleton_append]

/-- The rows of a table are added to those that were read before it. -/
theorem run?_table (rows more : List (List Text)) (hmore : ∀ texts ∈ more, texts ≠ []) :
    run? ⟨rows, [], [], .start⟩ (table more) = some ⟨rows ++ more, [], [], .start⟩ := by
  induction more generalizing rows with
  | nil => rw [table, List.flatMap_nil, run?_nil, List.append_nil]
  | cons texts rest ih =>
    obtain ⟨htexts, hrest⟩ := List.forall_mem_cons.1 hmore
    rw [table, List.flatMap_cons, run?_append, run?_row _ _ _ htexts, Option.bind_some,
      List.nil_append, ← table, ih _ hrest, List.append_assoc, List.singleton_append]

end Reader

/-- A table is read back. -/
theorem read?_table {rows : List (List Text)} (hrows : ∀ fields ∈ rows, fields ≠ []) :
    read? (table rows) = some rows := by
  rw [read?, Reader.empty, Reader.run?_table [] rows hrows]
  rfl

end Csv

end EventFinder
