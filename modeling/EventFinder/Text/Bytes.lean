import EventFinder.Text

/-!
# Text and bytes

File names are bytes, and text becomes bytes in UTF-8. Bytes that are not UTF-8 are still shown:
every longest beginning of a well-formed sequence that is cut short, and every byte that can start
none, becomes one replacement character.

Decoding reads one byte at a time. Between two bytes it either stands at the start of a sequence or
knows, in an `OpenSequence`, which bytes may come next, so that the rules for overlong forms,
surrogates and the end of the code space are ranges for the second byte.
-/

set_option autoImplicit false

namespace EventFinder

/-- A string of bytes, such as a file name or what a file holds. -/
abbrev Bytes := List UInt8

namespace Text

/-- The text in UTF-8. -/
def toBytes (text : Text) : Bytes :=
  text.flatMap String.utf8EncodeChar

end Text

/-- The character that stands for bytes that are not UTF-8. -/
def replacement : Char := '\uFFFD'

/-- A sequence of which some bytes have been read: the bits so far, the range of the next byte, and
how many bytes follow that one. -/
structure OpenSequence where
  bits : Nat
  low : UInt8
  high : UInt8
  following : Nat

/-- What a byte can be at the start of a sequence. -/
inductive LeadByte where
  /-- The byte is a character by itself. -/
  | whole (c : Char)
  /-- The byte starts a sequence of two to four bytes. -/
  | start (sequence : OpenSequence)
  /-- No sequence starts with the byte. -/
  | invalid

/-- What a byte is at the start of a sequence. -/
def leadByte (b : UInt8) : LeadByte :=
  if b < 0x80 then .whole (Char.ofNat b.toNat)
  else if b < 0xC2 then .invalid
  else if b < 0xE0 then .start ⟨b.toNat % 0x20, 0x80, 0xBF, 0⟩
  else if b = 0xE0 then .start ⟨0, 0xA0, 0xBF, 1⟩
  else if b = 0xED then .start ⟨0xD, 0x80, 0x9F, 1⟩
  else if b < 0xF0 then .start ⟨b.toNat % 0x10, 0x80, 0xBF, 1⟩
  else if b = 0xF0 then .start ⟨0, 0x90, 0xBF, 2⟩
  else if b < 0xF4 then .start ⟨b.toNat % 0x08, 0x80, 0xBF, 2⟩
  else if b = 0xF4 then .start ⟨4, 0x80, 0x8F, 2⟩
  else .invalid

namespace Bytes

/-- Decodes bytes from a place between two characters (`none`) or inside a sequence. -/
def decodeFrom : Option OpenSequence → Bytes → Text
  | none, [] => []
  | some _, [] => [replacement]
  | none, b :: rest =>
    match leadByte b with
    | .whole c => c :: decodeFrom none rest
    | .start sequence => decodeFrom (some sequence) rest
    | .invalid => replacement :: decodeFrom none rest
  | some sequence, b :: rest =>
    if sequence.low ≤ b ∧ b ≤ sequence.high then
      let bits := sequence.bits * 0x40 + b.toNat % 0x40
      match sequence.following with
      | 0 => Char.ofNat bits :: decodeFrom none rest
      | following + 1 => decodeFrom (some ⟨bits, 0x80, 0xBF, following⟩) rest
    else
      match leadByte b with
      | .whole c => replacement :: c :: decodeFrom none rest
      | .start next => replacement :: decodeFrom (some next) rest
      | .invalid => replacement :: replacement :: decodeFrom none rest

/-- The bytes as text, with replacement characters where they are not UTF-8. -/
def toText (bytes : Bytes) : Text :=
  decodeFrom none bytes

/-- A surrogate is three bytes that are not UTF-8, a sequence cut short is one. -/
example : toText [0xED, 0xA0, 0x80] = [replacement, replacement, replacement] ∧
    toText [0xF0, 0x9F, 0x8E] = [replacement] := by
  decide

/-- The bytes as text, if all of them are UTF-8. -/
def toText? (bytes : Bytes) : Option Text :=
  if bytes.toText.toBytes = bytes then some bytes.toText else none

end Bytes

end EventFinder
