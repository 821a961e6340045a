import EventFinder.Text

/-!
# Blank characters

The characters that count as blank are those with the property White_Space, and trimming takes them
off both ends of a text. The zero width space, the byte order mark and the separators between U+001C
and U+001F do not have the property.
-/

set_option autoImplicit false

namespace EventFinder

/-- The ranges, ends included, of the characters with the property White_Space. -/
def blankRanges : List (Nat × Nat) :=
  [(0x09, 0x0D), (0x20, 0x20), (0x85, 0x85), (0xA0, 0xA0), (0x1680, 0x1680), (0x2000, 0x200A),
   (0x2028, 0x2029), (0x202F, 0x202F), (0x205F, 0x205F), (0x3000, 0x3000)]

/-- Whether a character has the property White_Space. -/
def isBlank (c : Char) : Bool :=
  blankRanges.any fun (low, high) => low ≤ c.toNat && c.toNat ≤ high

/-- The five ASCII characters that separate words. -/
example : [' ', '\t', '\n', '\r', '\x0c'].all isBlank = true := rfl

namespace Text

/-- The text without the blank characters at its start. -/
def trimStart (text : Text) : Text :=
  text.dropWhile isBlank

/-- The text without the blank characters at its end. -/
def trimEnd (text : Text) : Text :=
  (text.reverse.dropWhile isBlank).reverse

/-- The text without the blank characters at both ends. -/
def trim (text : Text) : Text :=
  text.trimStart.trimEnd

end Text

end EventFinder
