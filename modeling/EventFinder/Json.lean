import EventFinder.Text.Number

/-!
# JSON

JSON values and the two layouts in which they are written. The compact layout has no blanks; the
spread layout puts every element and every member on a line of its own, indented by two blanks for
each level, and a blank after the colon of a member. Empty lists and objects are written in two
characters in both.

Inside a string a quote, a backslash and the control characters below U+0020 are escaped; every
other character stands for itself. Members are written in the order in which an object holds them.
-/

set_option autoImplicit false

namespace EventFinder

/-- A JSON value whose numbers are integers. -/
inductive Json where
  | null
  | bool (value : Bool)
  | number (value : Int)
  | string (value : Text)
  | array (items : List Json)
  /-- Members in the order in which they are written. -/
  | object (members : List (Text × Json))

namespace Json

/-- The value of something that may be absent. -/
def ofOption {α : Type} (value : α → Json) : Option α → Json
  | some a => value a
  | none => null

/-- A hexadecimal digit. -/
def hexDigit (n : Nat) : Char :=
  Nat.digitChar n

/-- A character inside a string. -/
def escape (c : Char) : Text :=
  if c = '"' then ['\\', '"']
  else if c = '\\' then ['\\', '\\']
  else if c = '\x08' then ['\\', 'b']
  else if c = '\t' then ['\\', 't']
  else if c = '\n' then ['\\', 'n']
  else if c = '\x0C' then ['\\', 'f']
  else if c = '\r' then ['\\', 'r']
  else if c.toNat < 0x20 then
    ['\\', 'u', '0', '0', hexDigit (c.toNat / 16), hexDigit (c.toNat % 16)]
  else [c]

/-- A string with its quotes. -/
def quoted (text : Text) : Text :=
  '"' :: text.flatMap escape ++ ['"']

/-- How much is written between the parts of lists and objects. -/
inductive Layout where
  | compact
  | spread
  deriving DecidableEq, Repr

namespace Layout

/-- What comes in front of an element or member at a level, and of the closing bracket. -/
def newLine : Layout → Nat → Text
  | compact, _ => []
  | spread, level => '\n' :: List.replicate (2 * level) ' '

/-- What comes between the name and the value of a member. -/
def colon : Layout → Text
  | compact => [':']
  | spread => [':', ' ']

end Layout

mutual

/-- The text of a value whose parts are at the given level. -/
def write (layout : Layout) (level : Nat) : Json → Text
  | null => "null".toList
  | bool value => Text.ofBool value
  | number value => Text.ofInt value
  | string value => quoted value
  | array [] => ['[', ']']
  | array (item :: rest) =>
    '[' :: layout.newLine level ++ write layout (level + 1) item ++ writeItems layout level rest
  | object [] => ['{', '}']
  | object ((name, value) :: rest) =>
    '{' :: layout.newLine level ++ quoted name ++ layout.colon ++ write layout (level + 1) value ++
      writeMembers layout level rest

/-- The text of the elements behind the first one, with the closing bracket. -/
def writeItems (layout : Layout) (level : Nat) : List Json → Text
  | [] => layout.newLine (level - 1) ++ [']']
  | item :: rest =>
    ',' :: layout.newLine level ++ write layout (level + 1) item ++ writeItems layout level rest

/-- The text of the members behind the first one, with the closing brace. -/
def writeMembers (layout : Layout) (level : Nat) : List (Text × Json) → Text
  | [] => layout.newLine (level - 1) ++ ['}']
  | (name, value) :: rest =>
    ',' :: layout.newLine level ++ quoted name ++ layout.colon ++ write layout (level + 1) value ++
      writeMembers layout level rest

end

/-- The text of a value. -/
def text (layout : Layout) (json : Json) : Text :=
  write layout 1 json

end Json

end EventFinder
