import EventFinder.Settings.Value
import EventFinder.Text.Blank
import EventFinder.Text.Bytes
import EventFinder.Text.Number
import EventFinder.Toml.Lexeme

/-!
# Settings in the environment

A variable gives a value to a setting if its name starts with `GIGCAL_`, in upper or lower case. The
rest of the name is the path to the setting, its parts separated by two underscores or by a dot;
none of them may be empty. Blanks around the name and around the path do not count.

The text of a variable is read as a truth value, a number, a quoted string or character, a list in
brackets or a table in braces. Inside lists and tables a text without quotes ends at the next comma,
brace or bracket. A text that is not completely of one of these forms is the value as it stands, so
that most texts need no quotes.
-/

set_option autoImplicit false

namespace EventFinder

/-- The variables of the environment, with their names. -/
abbrev Environment := List (Text × Text)

namespace Environment

/-- A variable as it is written, its name in front of an equals sign. -/
def ofAssignment? (bytes : Bytes) : Option (Text × Text) :=
  match bytes.toText? with
  | some text =>
    match text.dropWhile (· ≠ '=') with
    | _ :: value => some (text.takeWhile (· ≠ '='), value)
    | [] => none
  | none => none

/-- The variables of a block in which each one ends with a zero byte. Those that are not text are
left out. -/
def ofBlock (block : Bytes) : Environment :=
  (block.splitOn 0).filterMap ofAssignment?

/-- How the names of the variables start that hold settings, in lower case. -/
def lead : Text := "gigcal_".toList

/-- The text with dots in place of pairs of underscores. -/
def dotted : Text → Text
  | '_' :: '_' :: rest => '.' :: dotted rest
  | c :: rest => c :: dotted rest
  | [] => []

/-- The path to the setting that a variable of the given name holds. No path has an empty part. -/
def settingPath? (name : Text) : Option (List Text) :=
  ((Text.after? lead (Text.trim (name.map Char.toLower))).map fun rest =>
    (dotted (Text.trim rest)).splitOn '.').filter fun path => !path.elem []

/-- Whether a character separates words: the blanks of ASCII. -/
def isSpace (c : Char) : Bool :=
  c = ' ' || c = '\t' || c = '\n' || c = '\x0C' || c = '\r'

/-- The text without the blanks at its start. -/
def skipSpace (text : Text) : Text :=
  text.dropWhile isSpace

/-- Whether a character ends a text without quotes. -/
def isSeparator (c : Char) : Bool :=
  c = ',' || c = '\x7b' || c = '\x7d' || c = '[' || c = ']'

/-- Whether a text is digits with at most one point among them, and with the point in it or an
exponent behind it. -/
def isDecimal (text : Text) : Bool :=
  let mantissa := text.takeWhile fun c => !(c = 'e' || c = 'E')
  let exponent := text.dropWhile fun c => !(c = 'e' || c = 'E')
  let digits := mantissa.filter (· ≠ '.')
  (Text.digits? digits).isSome && mantissa.length ≤ digits.length + 1 &&
    (exponent.isEmpty || (Text.int? exponent.tail).isSome)

/-- Whether a text is a number with a point. -/
def isPointNumber (text : Text) : Bool :=
  text.elem '.' &&
    isDecimal (match text with
      | '+' :: rest => rest
      | '-' :: rest => rest
      | text => text)

/-- Whether a text is an integer of 64 bits, with a sign or without. -/
def isInteger (text : Text) : Bool :=
  (Text.int? text).any fun i =>
    fits64 i || (text.head? ≠ some '-' && i ≤ 18446744073709551615)

/-- The value of a text without quotes. -/
def bareValue (text : Text) : SettingValue :=
  if isPointNumber text || isInteger text then .number else .text text

/-- What follows the value in front, with the value, and without the blanks in between. -/
def skippingSpace (parts : SettingValue × Text) : SettingValue × Text :=
  (parts.1, skipSpace parts.2)

/-- Whether a character is neither the end of a quoted string nor the start of an escape. -/
def isPlain (c : Char) : Bool :=
  c ≠ '"' && c ≠ '\\'

/-- The longest beginning of a text that takes at most the given number of bytes. -/
def fitting : Nat → Text → Text
  | _, [] => []
  | room, c :: rest => if c.utf8Size ≤ room then c :: fitting (room - c.utf8Size) rest else []

/-- The content of a quoted string, behind its opening quote. In a string with escapes, the text
before the first of them has room for as many bytes as it has characters, and ends where that room
is used up. -/
def quotedString? (text : Text) : Option (Text × Text) :=
  let plain := text.takeWhile isPlain
  let room := if (text.dropWhile isPlain).head? = some '\\' then plain.length
    else Text.byteLength plain
  (Toml.basicString .plain text).map fun (content, rest) =>
    (fitting room plain ++ content.drop plain.length, rest)

/-- A character in apostrophes, behind the first of them. -/
def character? : Text → Option (SettingValue × Text)
  | c :: '\'' :: rest => some (.text [c], rest)
  | _ => none

/-- A value of one of the forms without parts. -/
def scalar? (text : Text) : Option (SettingValue × Text) :=
  match Text.after? "true".toList text with
  | some rest => some (.flag true, rest)
  | none =>
    match Text.after? "false".toList text with
    | some rest => some (.flag false, rest)
    | none =>
      match text with
      | '"' :: rest =>
        (quotedString? rest).map fun (content, rest) => (.text content, rest)
      | '\'' :: rest => character? rest
      | text =>
        let word := text.takeWhile fun c => !isSeparator c
        some (bareValue (Text.trim word), text.dropWhile fun c => !isSeparator c)

/-- A key of a table with the equals sign behind it. -/
def key? (text : Text) : Option (Text × Text) :=
  let part : Option (Text × Text) :=
    match skipSpace text with
    | '"' :: rest => quotedString? rest
    | text =>
      if (text.takeWhile Toml.isBareKeyChar).isEmpty then none
      else some (text.takeWhile Toml.isBareKeyChar, text.dropWhile Toml.isBareKeyChar)
  match part with
  | some (key, rest) =>
    match skipSpace rest with
    | '=' :: rest => some (key, rest)
    | _ => none
  | none => none

mutual

/-- A value with the blanks around it. Every step inwards or onwards takes one from the number of
steps. -/
def value? : Nat → Text → Option (SettingValue × Text)
  | 0, _ => none
  | steps + 1, text =>
    let parts : Option (SettingValue × Text) :=
      match skipSpace text with
      | '[' :: rest => (items? steps rest).map fun (items, rest) => (.list items, rest)
      | '\x7b' :: rest => (members? steps [] rest).map fun (entries, rest) => (.table entries, rest)
      | text => scalar? text
    parts.map skippingSpace

/-- The items of a list, behind its opening bracket or a comma, with the closing bracket. -/
def items? : Nat → Text → Option (List SettingValue × Text)
  | 0, _ => none
  | steps + 1, text =>
    match text with
    | ']' :: rest => some ([], rest)
    | text =>
      match value? steps text with
      | some (item, ',' :: rest) =>
        (items? steps rest).map fun (items, rest) => (item :: items, rest)
      | some (item, ']' :: rest) => some ([item], rest)
      | _ => none

/-- The members of a table, behind those that have been read, with the closing brace. -/
def members? : Nat → SettingTable → Text → Option (SettingTable × Text)
  | 0, _, _ => none
  | steps + 1, entries, text =>
    match text with
    | '\x7d' :: rest => some (entries, rest)
    | text =>
      match key? text with
      | some (key, rest) =>
        match value? steps rest with
        | some (value, ',' :: rest) =>
          members? steps (SettingTable.alter key (fun _ => value) entries) rest
        | some (value, '\x7d' :: rest) =>
          some (SettingTable.alter key (fun _ => value) entries, rest)
        | _ => none
      | none => none

end

/-- The value that the text of a variable is. -/
def valueOf (text : Text) : SettingValue :=
  match value? (text.length + 2) text with
  | some (value, []) => value
  | _ => .text text

/-- The value under a path of keys. -/
def nested (path : List Text) (value : SettingValue) : SettingValue :=
  path.foldr (fun key inner => .table [(key, inner)]) value

/-- The table with the setting that a variable holds. -/
def addVariable (table : SettingTable) (entry : Text × Text) : SettingTable :=
  match settingPath? entry.1 with
  | some path =>
    match nested path (valueOf entry.2) with
    | .table entries => SettingValue.overlayTable table entries
    | _ => table
  | none => table

/-- The settings that the variables hold. Where two variables are about one setting, the one whose
name comes later in the alphabet is followed. -/
def table (environment : Environment) : SettingTable :=
  (environment.mergeSort fun a b => !decide (b.1 < a.1)).foldl addVariable []

end Environment

end EventFinder
