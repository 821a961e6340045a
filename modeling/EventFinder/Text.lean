/-!
# Text

Text is a list of characters, so that every search, split and comparison is recursion on the text
itself and positions are the parts of the text before and after them. Texts are split and joined
by `List.splitOn` and `List.intercalate`. This file holds the other operations that the rest of the
library shares: taking a known beginning off a text, looking for one text inside another, adding a
character to the first of two parts, the length of a text in bytes, and how lines and truth values
are written.
-/

set_option autoImplicit false

namespace EventFinder

/-- Text as its characters, in reading order. -/
abbrev Text := List Char

namespace Text

/-- What follows `lead` in a text that starts with it. -/
abbrev after? (lead text : Text) : Option Text :=
  lead.isPrefixOf? text

/-- Whether `needle` occurs in the text. The empty text occurs everywhere. -/
def holds (needle : Text) : Text → Bool
  | [] => needle.isEmpty
  | c :: text => needle.isPrefixOf (c :: text) || holds needle text

/-- Puts a character in front of the first of two parts of a text. -/
def consBefore (c : Char) (parts : Text × Text) : Text × Text :=
  (c :: parts.1, parts.2)

/-- The number of bytes of the text in UTF-8. -/
def byteLength (text : Text) : Nat :=
  text.foldr (fun c length => c.utf8Size + length) 0

/-- The text followed by a line end. -/
def line (text : Text) : Text :=
  text ++ ['\n']

/-- A truth value as output writes it. -/
def ofBool : Bool → Text
  | true => "true".toList
  | false => "false".toList

end Text

end EventFinder
