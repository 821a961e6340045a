import EventFinder.Text

/-!
# The lexemes of TOML

The parts that TOML documents are made of below the level of values: blanks, line ends, comments,
strings and keys. A reader takes a text and returns what it has read with the text behind it, or
nothing where the text is not of that form.

Strings are read one character at a time. The state of the reading says whether the next character
stands for itself, follows a backslash, or is a digit of a character code. Line ends are line feeds
alone here: `unixLines` takes away the carriage returns in front of them before anything is read,
and a carriage return anywhere else is no part of a document.
-/

set_option autoImplicit false

namespace EventFinder

namespace Toml

/-- The text with line feeds in place of carriage returns followed by line feeds. -/
def unixLines : Text → Text
  | [] => []
  | '\r' :: '\n' :: rest => '\n' :: unixLines rest
  | c :: rest => c :: unixLines rest

/-- Whether a character is a blank inside a line. -/
def isSpace (c : Char) : Bool :=
  c = ' ' || c = '\t'

/-- The text without the blanks at its start. -/
def skipSpace (text : Text) : Text :=
  text.dropWhile isSpace

/-- Whether a character may stand in strings and comments: every character but the control
characters, of which only the tab may. -/
def isPrintable (c : Char) : Bool :=
  c = '\t' || (0x20 ≤ c.toNat && c.toNat ≠ 0x7F)

/-- What follows the rest of a line that holds nothing but blanks and a comment. -/
def lineEnd? (text : Text) : Option Text :=
  let text := skipSpace text
  let text := if text.head? = some '#' then text.dropWhile isPrintable else text
  match text with
  | [] => some []
  | '\n' :: rest => some rest
  | _ => none

/-- What follows blanks, line ends and comments. `inComment` says whether the text starts inside a
comment. -/
def skipLines (inComment : Bool) : Text → Option Text
  | [] => some []
  | c :: rest =>
    if inComment then
      if c = '\n' then skipLines false rest
      else if isPrintable c then skipLines true rest
      else none
    else if isSpace c || c = '\n' then skipLines false rest
    else if c = '#' then skipLines true rest
    else some (c :: rest)

/-- The value of a hexadecimal digit. -/
def hexValue? (c : Char) : Option Nat :=
  if '0' ≤ c ∧ c ≤ '9' then some (c.toNat - '0'.toNat)
  else if 'a' ≤ c ∧ c ≤ 'f' then some (c.toNat - 'a'.toNat + 10)
  else if 'A' ≤ c ∧ c ≤ 'F' then some (c.toNat - 'A'.toNat + 10)
  else none

/-- The character that a letter behind a backslash stands for. -/
def escaped? : Char → Option Char
  | 'b' => some '\x08'
  | 't' => some '\t'
  | 'n' => some '\n'
  | 'f' => some '\x0C'
  | 'r' => some '\r'
  | '"' => some '"'
  | '\\' => some '\\'
  | _ => none

/-- The number of digits in a character code that a letter behind a backslash announces. -/
def codeLength? : Char → Option Nat
  | 'u' => some 4
  | 'U' => some 8
  | _ => none

/-- The character with the given code. Surrogates are no characters. -/
def character? (code : Nat) : Option Char :=
  if code.isValidChar then some (Char.ofNat code) else none

/-- Where the reading of a string stands. -/
inductive StringState where
  /-- The next character stands for itself. -/
  | plain
  /-- The last character was a backslash. -/
  | escape
  /-- Digits of a character code are missing; the value of those before is known. -/
  | code (missing value : Nat)
  /-- A backslash at the end of a line: only blanks may follow up to the line end. -/
  | lastInLine
  /-- Behind a backslash at the end of a line: blanks and line ends do not count. -/
  | lineStart

/-- The step behind a digit of a character code: the finished character, or the next state. -/
def codeStep? (missing value : Nat) (c : Char) : Option (Option Char × StringState) :=
  match hexValue? c with
  | none => none
  | some digit =>
    let value := value * 16 + digit
    if missing ≤ 1 then (character? value).map fun c => (some c, .plain)
    else some (none, .code (missing - 1) value)

/-- The step behind a character that follows a backslash. -/
def escapeStep? (c : Char) : Option (Option Char × StringState) :=
  match codeLength? c with
  | some digits => some (none, .code digits 0)
  | none => (escaped? c).map fun c => (some c, .plain)

/-- Puts the finished character of a step, if there is one, in front of what has been read. -/
def consStep : Option Char → Text × Text → Text × Text
  | some c, parts => Text.consBefore c parts
  | none, parts => parts

/-- The content of a string between single double quotes, behind the first of them. -/
def basicString : StringState → Text → Option (Text × Text)
  | _, [] => none
  | .plain, c :: rest =>
    if c = '"' then some ([], rest)
    else if c = '\\' then basicString .escape rest
    else if isPrintable c then (basicString .plain rest).map (Text.consBefore c)
    else none
  | .escape, c :: rest =>
    match escapeStep? c with
    | some (finished, state) => (basicString state rest).map (consStep finished)
    | none => none
  | .code missing value, c :: rest =>
    match codeStep? missing value c with
    | some (finished, state) => (basicString state rest).map (consStep finished)
    | none => none
  | _, _ :: _ => none

/-- The content of a string between threefold double quotes, behind the first three. Up to two
quotes right before the closing ones belong to the content. -/
def longBasicString : StringState → Text → Option (Text × Text)
  | _, [] => none
  | .plain, '"' :: '"' :: '"' :: '"' :: '"' :: rest => some (['"', '"'], rest)
  | .plain, '"' :: '"' :: '"' :: '"' :: rest => some (['"'], rest)
  | .plain, '"' :: '"' :: '"' :: rest => some ([], rest)
  | .plain, c :: rest =>
    if c = '\\' then longBasicString .escape rest
    else if isPrintable c || c = '\n' then (longBasicString .plain rest).map (Text.consBefore c)
    else none
  | .escape, c :: rest =>
    if c = '\n' then longBasicString .lineStart rest
    else if isSpace c then longBasicString .lastInLine rest
    else
      match escapeStep? c with
      | some (finished, state) => (longBasicString state rest).map (consStep finished)
      | none => none
  | .code missing value, c :: rest =>
    match codeStep? missing value c with
    | some (finished, state) => (longBasicString state rest).map (consStep finished)
    | none => none
  | .lastInLine, c :: rest =>
    if c = '\n' then longBasicString .lineStart rest
    else if isSpace c then longBasicString .lastInLine rest
    else none
  | .lineStart, '"' :: '"' :: '"' :: '"' :: '"' :: rest => some (['"', '"'], rest)
  | .lineStart, '"' :: '"' :: '"' :: '"' :: rest => some (['"'], rest)
  | .lineStart, '"' :: '"' :: '"' :: rest => some ([], rest)
  | .lineStart, c :: rest =>
    if c = '\n' || isSpace c then longBasicString .lineStart rest
    else if c = '\\' then longBasicString .escape rest
    else if isPrintable c then (longBasicString .plain rest).map (Text.consBefore c)
    else none

/-- The content of a string between single apostrophes, behind the first of them. -/
def literalString : Text → Option (Text × Text)
  | [] => none
  | c :: rest =>
    if c = '\'' then some ([], rest)
    else if isPrintable c then (literalString rest).map (Text.consBefore c)
    else none

/-- The content of a string between threefold apostrophes, behind the first three. -/
def longLiteralString : Text → Option (Text × Text)
  | [] => none
  | '\'' :: '\'' :: '\'' :: '\'' :: '\'' :: rest => some (['\'', '\''], rest)
  | '\'' :: '\'' :: '\'' :: '\'' :: rest => some (['\''], rest)
  | '\'' :: '\'' :: '\'' :: rest => some ([], rest)
  | c :: rest =>
    if isPrintable c || c = '\n' then (longLiteralString rest).map (Text.consBefore c) else none

/-- The content of a long string without the line end right behind its opening quotes. -/
def dropFirstLineEnd : Text → Text
  | '\n' :: rest => rest
  | text => text

/-- A string in any of the four forms. -/
def string? : Text → Option (Text × Text)
  | '"' :: '"' :: '"' :: rest => longBasicString .plain (dropFirstLineEnd rest)
  | '\'' :: '\'' :: '\'' :: rest => longLiteralString (dropFirstLineEnd rest)
  | '"' :: rest => basicString .plain rest
  | '\'' :: rest => literalString rest
  | _ => none

/-- Whether a character may stand in a key without quotes. -/
def isBareKeyChar (c : Char) : Bool :=
  c.isAlphanum || c = '_' || c = '-'

/-- One part of a key: bare, or a string on one line. -/
def keyPart? : Text → Option (Text × Text)
  | '"' :: rest => basicString .plain rest
  | '\'' :: rest => literalString rest
  | text =>
    if (text.takeWhile isBareKeyChar).isEmpty then none
    else some (text.takeWhile isBareKeyChar, text.dropWhile isBareKeyChar)

/-- A key of at most the given number of parts, with the dots between them and the blanks around. -/
def keyOfParts? : Nat → Text → Option (List Text × Text)
  | 0, _ => none
  | parts + 1, text =>
    match keyPart? (skipSpace text) with
    | none => none
    | some (part, rest) =>
      match skipSpace rest with
      | '.' :: rest => (keyOfParts? parts rest).map fun (path, rest) => (part :: path, rest)
      | rest => some ([part], rest)

/-- How many lists and tables may stand one inside the other, and how many parts a key may have. -/
def maxDepth : Nat := 79

/-- A key with the blanks around it. -/
def key? (text : Text) : Option (List Text × Text) :=
  keyOfParts? maxDepth text

end Toml

end EventFinder
