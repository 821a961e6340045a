import EventFinder.Text

/-!
# Written TOML

How texts and lists of texts are written. Of the four forms of strings a text has the first one that
says it without escapes (`StringForm.ofText`): between double quotes, between apostrophes, and the
same two with the quotes threefold. A text that needs escapes in every form stands between double
quotes, threefold ones if it has several lines. The lines of a text in a threefold form start on a
line of their own, since a line end right behind the opening quotes does not count.

A list of several texts has every one of them on a line of its own.
-/

set_option autoImplicit false

namespace EventFinder

namespace Toml

/-- Whether a character is a control character. -/
def isControl (c : Char) : Bool :=
  c.toNat < 0x20 || c.toNat = 0x7F

/-- A digit of a character code, in upper case. -/
def codeDigit (n : Nat) : Char :=
  (Nat.digitChar n).toUpper

/-- A character between double quotes. -/
def escape (c : Char) : Text :=
  if c = '"' then ['\\', '"']
  else if c = '\\' then ['\\', '\\']
  else if c = '\x08' then ['\\', 'b']
  else if c = '\t' then ['\\', 't']
  else if c = '\n' then ['\\', 'n']
  else if c = '\x0C' then ['\\', 'f']
  else if c = '\r' then ['\\', 'r']
  else if isControl c then
    ['\\', 'u', '0', '0', codeDigit (c.toNat / 16), codeDigit (c.toNat % 16)]
  else [c]

/-- The forms of strings. -/
inductive StringForm where
  /-- Between double quotes, with escapes. -/
  | basic
  /-- Between apostrophes, without escapes. -/
  | literal
  /-- Between threefold double quotes, with escapes but for line ends. -/
  | longBasic
  /-- Between threefold apostrophes, without escapes. -/
  | longLiteral
  deriving DecidableEq, Repr

namespace StringForm

/-- Whether a character is a control character other than the tab and the line feed. -/
def needsCode (c : Char) : Bool :=
  isControl c && c ≠ '\t' && c ≠ '\n'

/-- Whether a form says a text without escapes. A tab does not count as one, and up to two quotes
may stand in a row between threefold quotes. -/
def isPlainFor (text : Text) : StringForm → Bool
  | basic => !text.any fun c => needsCode c || c = '\\' || c = '"' || c = '\n'
  | literal => !text.any fun c => needsCode c || c = '\'' || c = '\n'
  | longBasic => !(text.any fun c => needsCode c || c = '\\') && !Text.holds ['"', '"', '"'] text
  | longLiteral => !text.any needsCode && !Text.holds ['\'', '\'', '\''] text

/-- The form of a text that needs escapes in every form. -/
def withEscapes (text : Text) : StringForm :=
  if text.elem '\n' then longBasic else basic

/-- The form that a text is written in. -/
def ofText (text : Text) : StringForm :=
  ([basic, literal, longBasic, longLiteral].find? (isPlainFor text)).getD (withEscapes text)

end StringForm

/-- The content of a string between threefold double quotes. Of the quotes in a row, the given
number stand as they are before one is escaped. -/
def longContent : Nat → Text → Text
  | _, [] => []
  | quotes, c :: rest =>
    if c = '"' then
      match quotes with
      | 0 => escape c ++ longContent 2 rest
      | quotes + 1 => c :: longContent quotes rest
    else if c = '\n' then c :: longContent 2 rest
    else escape c ++ longContent 2 rest

/-- The line end behind the opening quotes of a long string that holds line ends. -/
def openingLine (text : Text) : Text :=
  if text.elem '\n' then ['\n'] else []

/-- A text as a string. -/
def ofText (text : Text) : Text :=
  match StringForm.ofText text with
  | .basic => '"' :: text.flatMap escape ++ ['"']
  | .literal => '\'' :: text ++ ['\'']
  | .longBasic =>
    ['"', '"', '"'] ++ openingLine text ++ longContent 2 text ++ ['"', '"', '"']
  | .longLiteral => ['\'', '\'', '\''] ++ openingLine text ++ text ++ ['\'', '\'', '\'']

/-- Texts as a list of strings: one item on the same line, several on lines of their own. -/
def ofTexts : List Text → Text
  | [] => ['[', ']']
  | [item] => '[' :: ofText item ++ [']']
  | items => Text.line ['['] ++ items.flatMap (fun item =>
      Text.line ("    ".toList ++ ofText item ++ [','])) ++ [']']

/-- The line that gives a value to a key. -/
def assignment (key : String) (value : Text) : Text :=
  Text.line (key.toList ++ " = ".toList ++ value)

/-- The line that opens a section. -/
def sectionHeader (name : String) : Text :=
  Text.line ('[' :: name.toList ++ [']'])

end Toml

end EventFinder
