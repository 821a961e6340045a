import EventFinder.Toml.Lexeme
import EventFinder.Toml.Scalar

/-!
# TOML documents

A document is lines that give values to keys, under headers that name tables and elements of lists
of tables. No key is given twice, and a table is opened once: it is known of each table whether a
header opened it, whether it exists only because a header names a table inside it, or whether a key
with dots made it, and each way of adding to a table accepts some of these.

Lists and tables in braces stand inside each other up to a depth of `maxDepth`, and no key has more
parts than that. `SettingValue.ofTable?` says what value a finished table is. `Toml.read?` gives the
table of a document, or nothing if it is none.
-/

set_option autoImplicit false

namespace EventFinder

namespace Toml

/-- How a table came to be. -/
inductive TableOrigin where
  /-- A header opened it. -/
  | header
  /-- A header opened a table inside it. -/
  | outerPart
  /-- A key with dots made it. -/
  | dottedKey
  deriving DecidableEq, Repr

/-- What a key of an unfinished document stands for. -/
inductive Item where
  /-- A finished value. Nothing can be added to it. -/
  | value (value : SettingValue)
  /-- A table that lines may still be added to. -/
  | table (origin : TableOrigin) (entries : List (Text × Item))
  /-- Tables under one header, the last one opened last. -/
  | tables (elements : List (List (Text × Item)))

/-- An unfinished table. -/
abbrev Entries := List (Text × Item)

namespace Entries

/-- The table with another item under one of its keys. -/
def replace (key : Text) (item : Item) (entries : Entries) : Entries :=
  entries.map fun (other, old) => if other = key then (other, item) else (other, old)

/-- Changes the last of several tables. -/
def changeLast (change : Entries → Option Entries) : List Entries → Option (List Entries)
  | [] => none
  | [entries] => (change entries).map fun entries => [entries]
  | first :: rest => (changeLast change rest).map (first :: ·)

/-- Changes the table inside an item. -/
def changeInside (change : Entries → Option Entries) : Item → Option Item
  | .value _ => none
  | .table origin entries => (change entries).map (.table origin)
  | .tables elements => (changeLast change elements).map .tables

/-- Changes the table under a key, which is made if there is none. -/
def changeUnder (key : Text) (origin : TableOrigin) (change : Entries → Option Entries)
    (entries : Entries) : Option Entries :=
  match entries.lookup key with
  | none => (change []).map fun inner => entries ++ [(key, .table origin inner)]
  | some item => (changeInside change item).map fun item => replace key item entries

/-- Opens the table that a header names. -/
def openTable : List Text → Entries → Option Entries
  | [], _ => none
  | [key], entries =>
    match entries.lookup key with
    | none => some (entries ++ [(key, .table .header [])])
    | some (.table .outerPart inner) => some (replace key (.table .header inner) entries)
    | some _ => none
  | key :: path, entries => changeUnder key .outerPart (openTable path) entries

/-- Opens one more element of the list of tables that a header names. -/
def openElement : List Text → Entries → Option Entries
  | [], _ => none
  | [key], entries =>
    match entries.lookup key with
    | none => some (entries ++ [(key, .tables [[]])])
    | some (.tables elements) => some (replace key (.tables (elements ++ [[]])) entries)
    | some _ => none
  | key :: path, entries => changeUnder key .outerPart (openElement path) entries

/-- Gives a value to a key in a table. `dotted` says whether the parts of a key with dots lead to
the table, and `origin` how the table came to be: both or neither have to be of the dotted kind. -/
def put (dotted : Bool) (origin : TableOrigin) : List Text → SettingValue → Entries → Option Entries
  | [], _, _ => none
  | [key], value, entries =>
    if dotted = decide (origin = .dottedKey) ∧ (entries.lookup key).isNone then
      some (entries ++ [(key, .value value)])
    else none
  | key :: path, value, entries =>
    match entries.lookup key with
    | some (.table .header _) => none
    | some (.table origin inner) =>
      (put true origin path value inner).map fun inner =>
        replace key (.table origin inner) entries
    | some item =>
      (changeInside (put true .header path value) item).map fun item => replace key item entries
    | none =>
      (put true .dottedKey path value []).map fun inner =>
        entries ++ [(key, .table .dottedKey inner)]

/-- Gives a value to a key under the header that was read last. -/
def putUnder : List Text → List Text → SettingValue → Entries → Option Entries
  | [], path, value, entries => put false .header path value entries
  | key :: header, path, value, entries =>
    changeUnder key .outerPart (putUnder header path value) entries

end Entries

mutual

/-- The value of an item. -/
def Item.value? : Item → Option SettingValue
  | .value value => some value
  | .table _ entries => (entriesTable? entries).bind SettingValue.ofTable?
  | .tables elements => (elementValues? elements).map .list

/-- The table of entries. -/
def entriesTable? : List (Text × Item) → Option SettingTable
  | [] => some []
  | (key, item) :: rest =>
    item.value?.bind fun value => (entriesTable? rest).map ((key, value) :: ·)

/-- The values of elements. -/
def elementValues? : List (List (Text × Item)) → Option (List SettingValue)
  | [] => some []
  | entries :: rest =>
    ((entriesTable? entries).bind SettingValue.ofTable?).bind fun value =>
      (elementValues? rest).map (value :: ·)

end

/-- The table in braces that has been read with its closing brace. -/
def closed? (parts : Entries × Text) : Option (SettingValue × Text) :=
  ((entriesTable? parts.1).bind SettingValue.ofTable?).map fun value => (value, parts.2)

mutual

/-- A value in which at most `depth` lists and tables stand one inside the other. Every step inwards
or onwards takes one from the number of steps. -/
def valueWithin? (depth : Nat) : Nat → Text → Option (SettingValue × Text)
  | 0, _ => none
  | steps + 1, text =>
    match depth, text with
    | 0, '[' :: _ => none
    | 0, '\x7b' :: _ => none
    | depth + 1, '[' :: rest =>
      (items? depth steps rest).map fun (items, rest) => (.list items, rest)
    | depth + 1, '\x7b' :: rest =>
      match skipSpace rest with
      | '\x7d' :: rest => closed? ([], rest)
      | rest => (members? depth steps [] rest).bind closed?
    | _, '"' :: _ => (string? text).map fun (content, rest) => (.text content, rest)
    | _, '\'' :: _ => (string? text).map fun (content, rest) => (.text content, rest)
    | _, text => scalar? text

/-- The items of a list, behind its opening bracket or a comma, with the closing bracket. -/
def items? (depth : Nat) : Nat → Text → Option (List SettingValue × Text)
  | 0, _ => none
  | steps + 1, text =>
    match skipLines false text with
    | some (']' :: rest) => some ([], rest)
    | some text =>
      match valueWithin? depth steps text with
      | some (item, rest) =>
        match skipLines false rest with
        | some (',' :: rest) =>
          (items? depth steps rest).map fun (items, rest) => (item :: items, rest)
        | some (']' :: rest) => some ([item], rest)
        | _ => none
      | none => none
    | none => none

/-- The members of a table in braces, behind those that have been read, with the closing brace. -/
def members? (depth : Nat) : Nat → Entries → Text → Option (Entries × Text)
  | 0, _, _ => none
  | steps + 1, entries, text =>
    match key? text with
    | some (path, '=' :: rest) =>
      match valueWithin? depth steps (skipSpace rest) with
      | some (value, rest) =>
        match Entries.put false .header path value entries with
        | some entries =>
          match skipSpace rest with
          | ',' :: rest => members? depth steps entries rest
          | '\x7d' :: rest => some (entries, rest)
          | _ => none
        | none => none
      | none => none
    | _ => none

end

/-- A value at the start of a text. Reading takes at most two steps for a character. -/
def value? (text : Text) : Option (SettingValue × Text) :=
  valueWithin? maxDepth (2 * text.length + 2) text

/-- A header of a table in one pair of brackets, behind them. -/
def header? (text : Text) : Option (List Text × Text) :=
  match key? text with
  | some (path, ']' :: rest) => (lineEnd? rest).map fun rest => (path, rest)
  | _ => none

/-- A header of an element of a list of tables in two pairs of brackets, behind them. -/
def elementHeader? (text : Text) : Option (List Text × Text) :=
  match key? text with
  | some (path, ']' :: ']' :: rest) => (lineEnd? rest).map fun rest => (path, rest)
  | _ => none

/-- A line that gives a value to a key. -/
def assignment? (text : Text) : Option (List Text × SettingValue × Text) :=
  match key? text with
  | some (path, '=' :: rest) =>
    match value? (skipSpace rest) with
    | some (value, rest) => (lineEnd? rest).map fun rest => (path, value, rest)
    | none => none
  | _ => none

/-- Reads the rest of a document, of at most the given number of lines, under a header. -/
def lines? : Nat → List Text → Entries → Text → Option Entries
  | 0, _, _, _ => none
  | lines + 1, header, entries, text =>
    match skipSpace text with
    | [] => some entries
    | '[' :: '[' :: rest =>
      match elementHeader? rest with
      | some (header, rest) =>
        (Entries.openElement header entries).bind (lines? lines header · rest)
      | none => none
    | '[' :: rest =>
      match header? rest with
      | some (header, rest) => (Entries.openTable header entries).bind (lines? lines header · rest)
      | none => none
    | c :: rest =>
      if c = '\n' || c = '#' then (lineEnd? (c :: rest)).bind (lines? lines header entries ·)
      else
        match assignment? (c :: rest) with
        | some (path, value, rest) =>
          (Entries.putUnder header path value entries).bind (lines? lines header · rest)
        | none => none

/-- The text without the mark that tells the order of bytes. -/
def withoutMark : Text → Text
  | '\uFEFF' :: text => text
  | text => text

/-- The table of a document. -/
def read? (text : Text) : Option SettingTable :=
  let text := unixLines (withoutMark text)
  (lines? (text.length + 1) [] [] text).bind entriesTable?

end Toml

end EventFinder
