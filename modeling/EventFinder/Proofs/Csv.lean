import EventFinder.Csv
import EventFinder.Proofs.Result
import EventFinder.Proofs.Text.Decoding

/-!
# Writing tables

A table is written exactly if all its rows have as many fields as the first one
(`write_eq_ok_iff`).

Tables are written byte by byte: a field stands in quotes for the bytes that it holds, and these
bytes are doubled. All of them are ASCII, and no other character has a byte below 0x80 in UTF-8, so
that no character is cut and the bytes are the text (`writtenText?_eq`).
-/

set_option autoImplicit false

namespace EventFinder

namespace Csv

/-! ## Rows of one length -/

/-- Rows are written below a header if they are as wide as it is, one behind the other. -/
theorem writeBelow_eq_ok_iff {α : Type} {row : List Text → List α} {width : Nat}
    {rows : List (List Text)} {written : List α} :
    writeBelow row width rows = .ok written ↔
      (∀ fields ∈ rows, fields.length = width) ∧ written = rows.flatMap row := by
  induction rows generalizing written with
  | nil => simp [writeBelow, eq_comm]
  | cons fields rest ih =>
    by_cases h : fields.length = width
    · rw [writeBelow, if_pos h, map_eq_ok_iff]
      simp only [ih, List.forall_mem_cons, h, true_and, List.flatMap_cons]
      constructor
      · rintro ⟨below, ⟨hrest, rfl⟩, rfl⟩
        exact ⟨hrest, rfl⟩
      · rintro ⟨hrest, rfl⟩
        exact ⟨_, ⟨hrest, rfl⟩, rfl⟩
    · simp [writeBelow, h]

/-- A table is written if its rows are as wide as its header, and then as `table` shows it. -/
theorem write_eq_ok_iff {header : List Text} {rows : List (List Text)} {text : Text} :
    write (header :: rows) = .ok text ↔
      (∀ fields ∈ rows, fields.length = header.length) ∧ text = table (header :: rows) := by
  simp only [write, writeRows, map_eq_ok_iff, writeBelow_eq_ok_iff]
  constructor
  · rintro ⟨below, ⟨hrows, rfl⟩, rfl⟩
    exact ⟨hrows, rfl⟩
  · rintro ⟨hrows, rfl⟩
    exact ⟨_, ⟨hrows, rfl⟩, rfl⟩

/-- Rows that are changed piece by piece are written as what was written, changed so. -/
theorem writeRows_flatMap {α β : Type} (change : α → List β) (row : List Text → List α)
    (rows : List (List Text)) :
    writeRows (fun fields => (row fields).flatMap change) rows =
      (writeRows row rows).map (·.flatMap change) := by
  have hbelow : ∀ width rows, writeBelow (fun fields => (row fields).flatMap change) width rows =
      (writeBelow row width rows).map (·.flatMap change) := by
    intro width rows
    induction rows with
    | nil => rfl
    | cons fields rest ih =>
      by_cases h : fields.length = width
      · rw [writeBelow, if_pos h, ih, writeBelow, if_pos h, map_map, map_map]
        simp only [Function.comp_def, List.flatMap_append]
      · rw [writeBelow, if_neg h, writeBelow, if_neg h]
        rfl
  cases rows with
  | nil => rfl
  | cons header rest =>
    rw [writeRows, hbelow, writeRows, map_map, map_map]
    simp only [Function.comp_def, List.flatMap_append]

/-! ## Writing bytes -/

/-- The byte that separates fields. -/
def commaByte : UInt8 := 0x2C

/-- The byte that opens and closes a field in quotes. -/
def quoteByte : UInt8 := 0x22

/-- The byte that ends a row. -/
def lineFeedByte : UInt8 := 0x0A

/-- The byte of a carriage return. -/
def returnByte : UInt8 := 0x0D

/-- Whether a field with this byte stands in quotes. -/
def isSpecialByte (b : UInt8) : Bool :=
  b = commaByte || b = quoteByte || b = returnByte || b = lineFeedByte

/-- A byte inside quotes. -/
def doubleByte (b : UInt8) : Bytes :=
  if b = quoteByte then [quoteByte, quoteByte] else [b]

/-- A field as its bytes are written. -/
def fieldInBytes (bytes : Bytes) : Bytes :=
  if bytes.any isSpecialByte then quoteByte :: bytes.flatMap doubleByte ++ [quoteByte] else bytes

/-- A row as its bytes are written. -/
def rowInBytes (fields : List Text) : Bytes :=
  [commaByte].intercalate (fields.map fun text => fieldInBytes text.toBytes) ++ [lineFeedByte]

/-- The text of a table that is written in bytes. There is no result if these are not UTF-8. -/
def writtenText? (rows : List (List Text)) : Option (Except UnequalRow Text) :=
  match writeRows rowInBytes rows with
  | .error e => some (.error e)
  | .ok bytes => (Bytes.toText? bytes).map .ok

/-- A character is one byte, its code, or all its bytes are from 0x80 on. -/
theorem utf8EncodeChar_cases (c : Char) :
    (c.toNat < 0x80 ∧ String.utf8EncodeChar c = [UInt8.ofNat c.toNat]) ∨
      (0x80 ≤ c.toNat ∧ ∀ b ∈ String.utf8EncodeChar c, 0x80 ≤ b.toNat) := by
  have hvalid : c.val.toNat < 0xD800 ∨ 0xDFFF < c.val.toNat ∧ c.val.toNat < 0x110000 := c.valid
  show (c.val.toNat < 0x80 ∧ _) ∨ (0x80 ≤ c.val.toNat ∧ _)
  unfold String.utf8EncodeChar
  simp only []
  split_ifs
  · exact .inl ⟨by omega, rfl⟩
  all_goals
    refine .inr ⟨by omega, fun b hb => ?_⟩
    simp only [List.mem_cons, List.not_mem_nil, or_false] at hb
    rcases hb with rfl | rfl | rfl | rfl <;> simp <;> omega

/-- The code of an ASCII character fits in its byte. -/
theorem toNat_ofNat_of_ascii {c : Char} (h : c.toNat < 0x80) :
    (UInt8.ofNat c.toNat).toNat = c.toNat := by
  apply UInt8.toNat_ofNat_of_lt'
  simp only [UInt8.size]
  omega

/-- The byte of an ASCII character occurs in no other character. -/
theorem eq_byte_iff {c d : Char} (hd : d.toNat < 0x80) {b : UInt8}
    (hb : b ∈ String.utf8EncodeChar c) : b = UInt8.ofNat d.toNat ↔ c = d := by
  have hdbyte := toNat_ofNat_of_ascii hd
  obtain ⟨hc, hencoded⟩ | ⟨hc, hlong⟩ := utf8EncodeChar_cases c
  · rw [hencoded, List.mem_singleton] at hb
    rw [hb, ← UInt8.toNat_inj, toNat_ofNat_of_ascii hc, hdbyte, Char.toNat_inj]
  · -- No byte of a long character is one of an ASCII character, so both sides are false.
    have hble := hlong b hb
    constructor
    · rintro rfl
      omega
    · rintro rfl
      omega

/-- A byte of a character is special exactly if the character is. -/
theorem isSpecialByte_eq {c : Char} {b : UInt8} (hb : b ∈ String.utf8EncodeChar c) :
    isSpecialByte b = isSpecial c := by
  have hcomma : b = commaByte ↔ c = ',' := eq_byte_iff (d := ',') (by decide) hb
  have hquote : b = quoteByte ↔ c = '"' := eq_byte_iff (d := '"') (by decide) hb
  have hreturn : b = returnByte ↔ c = '\r' := eq_byte_iff (d := '\r') (by decide) hb
  have hlineFeed : b = lineFeedByte ↔ c = '\n' := eq_byte_iff (d := '\n') (by decide) hb
  simp only [isSpecialByte, isSpecial, hcomma, hquote, hreturn, hlineFeed]

/-- The bytes of a text put a field in quotes exactly where its characters do. -/
theorem any_isSpecialByte_toBytes (text : Text) :
    text.toBytes.any isSpecialByte = text.any isSpecial := by
  have hcharacter : ∀ c, (String.utf8EncodeChar c).any isSpecialByte = isSpecial c := by
    intro c
    -- All bytes of a character agree on whether it is special, and it has at least one.
    obtain ⟨b, hb⟩ := List.exists_mem_of_ne_nil _ (String.utf8EncodeChar_ne_nil (c := c))
    cases hspecial : isSpecial c with
    | true =>
      rw [List.any_eq_true]
      exact ⟨b, hb, by rw [isSpecialByte_eq hb, hspecial]⟩
    | false =>
      rw [List.any_eq_false]
      intro b hb
      simp [isSpecialByte_eq hb, hspecial]
  rw [Text.toBytes, List.any_flatMap]
  simp only [hcharacter]

/-- Doubling the quotes among the bytes of a text gives the bytes of the text with doubled quotes.
-/
theorem flatMap_doubleByte_toBytes (text : Text) :
    text.toBytes.flatMap doubleByte = Text.toBytes (text.flatMap double) := by
  have hcharacter : ∀ c, (String.utf8EncodeChar c).flatMap doubleByte =
      (double c).flatMap String.utf8EncodeChar := by
    intro c
    by_cases hquote : c = '"'
    · subst hquote
      rfl
    · have hsingle : ∀ b ∈ String.utf8EncodeChar c, doubleByte b = [b] := by
        intro b hb
        have hne : b ≠ quoteByte := fun h => hquote ((eq_byte_iff (d := '"') (by decide) hb).1 h)
        simp [doubleByte, hne]
      rw [double, if_neg hquote, List.flatMap_singleton, List.flatMap_def,
        List.map_congr_left hsingle, ← List.flatMap_def, List.flatMap_singleton']
  rw [Text.toBytes, Text.toBytes, List.flatMap_assoc, List.flatMap_assoc]
  simp only [hcharacter]

/-- A field that is written byte by byte has the bytes of the field. -/
theorem fieldInBytes_toBytes (text : Text) : fieldInBytes text.toBytes = (field text).toBytes := by
  rw [fieldInBytes, field, any_isSpecialByte_toBytes, flatMap_doubleByte_toBytes]
  split
  · rw [Text.toBytes_append]
    rfl
  · rfl

/-- A row that is written byte by byte has the bytes of the row. -/
theorem rowInBytes_eq (fields : List Text) : rowInBytes fields = (row fields).toBytes := by
  have hfields : (fields.map fun text => fieldInBytes text.toBytes) =
      (fields.map field).map Text.toBytes := by
    rw [List.map_map]
    exact List.map_congr_left fun text _ => fieldInBytes_toBytes text
  rw [rowInBytes, hfields, row, Text.line, Text.toBytes_append, ← Text.intercalate_map_toBytes]
  rfl

/-- The bytes of a table are UTF-8 and say what the table says, and a table whose rows differ is
refused in both forms. -/
theorem writtenText?_eq (rows : List (List Text)) : writtenText? rows = some (write rows) := by
  have hbytes : writeRows rowInBytes rows = (write rows).map Text.toBytes := by
    rw [funext rowInBytes_eq]
    exact writeRows_flatMap String.utf8EncodeChar row rows
  rw [writtenText?, hbytes]
  cases write rows with
  | error e => rfl
  | ok text => simp [Bytes.toText?, Bytes.toText_toBytes]

end Csv

end EventFinder
