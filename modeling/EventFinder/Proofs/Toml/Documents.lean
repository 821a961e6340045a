import EventFinder.Proofs.Settings.Overlay
import EventFinder.Proofs.Toml.Values

/-!
# Written documents are read

A document is written as sections (`Section`) with empty lines between them. Reading it, the header
of a section opens a table, and every line puts the value of its field behind those that the table
already has (`putUnder_last`). So the reader ends with one table for each section, in their order
(`lines?_document`), and these are the table of the document (`read?_document`).
-/

set_option autoImplicit false

namespace EventFinder

namespace Toml

/-! ## Lines -/

/-- Whether a text can stand as a key without quotes. -/
def IsBareKey (key : Text) : Prop :=
  key ≠ [] ∧ ∀ c ∈ key, isBareKeyChar c = true

/-- All characters are tested. -/
instance (key : Text) : Decidable (IsBareKey key) :=
  decidable_of_iff (key ≠ [] ∧ key.all isBareKeyChar = true) (by rw [IsBareKey, List.all_eq_true])

/-- A character of keys is none that ends them. -/
theorem isBareKeyChar_ne {c d : Char} (hc : isBareKeyChar c = true)
    (hd : isBareKeyChar d = false) : c ≠ d := by
  rintro rfl
  rw [hd] at hc
  cases hc

/-- A key starts with a character of keys. -/
theorem IsBareKey.exists_cons {key : Text} (h : IsBareKey key) :
    ∃ c more, key = c :: more ∧ isBareKeyChar c = true := by
  obtain ⟨hne, hchars⟩ := h
  obtain ⟨c, more, rfl⟩ := List.exists_cons_of_ne_nil hne
  exact ⟨c, more, rfl, hchars c List.mem_cons_self⟩

/-- Nothing is skipped of a text that does not start with a blank. -/
theorem skipSpace_of_head? {text : Text} (h : ∀ c ∈ text.head?, isSpace c = false) :
    skipSpace text = text := by
  unfold skipSpace
  rcases text with _ | ⟨c, text⟩
  · rfl
  · rw [List.dropWhile_cons_of_neg (by simp [h c rfl])]

/-- Nothing is skipped in front of a key. -/
theorem skipSpace_of_bareKeyChar {c : Char} (h : isBareKeyChar c = true) (text : Text) :
    skipSpace (c :: text) = c :: text := by
  refine skipSpace_of_head? fun d hd => ?_
  obtain rfl := Option.some.inj hd
  have hspace : c ≠ ' ' := isBareKeyChar_ne h rfl
  have htab : c ≠ '\t' := isBareKeyChar_ne h rfl
  simp [isSpace, hspace, htab]

/-- A key is read up to the first character that does not belong to one. -/
theorem keyPart?_bare {key : Text} (h : IsBareKey key) {rest : Text}
    (hrest : ∀ c ∈ rest.head?, isBareKeyChar c = false) :
    keyPart? (key ++ rest) = some (key, rest) := by
  have htake : (key ++ rest).takeWhile isBareKeyChar = key := by
    rw [List.takeWhile_append_of_pos h.2]
    rcases rest with _ | ⟨c, rest⟩
    · simp
    · rw [List.takeWhile_cons_of_neg (by simp [hrest c rfl]), List.append_nil]
  have hdrop : (key ++ rest).dropWhile isBareKeyChar = rest := by
    rw [List.dropWhile_append_of_pos h.2]
    rcases rest with _ | ⟨c, rest⟩
    · rfl
    · rw [List.dropWhile_cons_of_neg (by simp [hrest c rfl])]
  obtain ⟨c, more, rfl, hc⟩ := h.exists_cons
  have hquote : c ≠ '"' := isBareKeyChar_ne hc rfl
  have hapostrophe : c ≠ '\'' := isBareKeyChar_ne hc rfl
  rw [List.cons_append] at htake hdrop ⊢
  rw [keyPart?]
  · rw [htake, hdrop]
    rfl
  · rintro more heq
    exact hquote (List.cons.inj heq).1
  · rintro more heq
    exact hapostrophe (List.cons.inj heq).1

/-- A bare key is read up to the blanks behind it, unless there is a dot behind them. -/
theorem key?_bare {key : Text} (h : IsBareKey key) {rest : Text}
    (hrest : ∀ c ∈ rest.head?, isBareKeyChar c = false)
    (hdot : (skipSpace rest).head? ≠ some '.') :
    key? (key ++ rest) = some ([key], skipSpace rest) := by
  have hpart := keyPart?_bare h hrest
  obtain ⟨c, more, rfl, hc⟩ := h.exists_cons
  rw [key?, maxDepth, keyOfParts?, List.cons_append, skipSpace_of_bareKeyChar hc,
    ← List.cons_append, hpart]
  simp only []
  split
  · rename_i heq
    rw [heq] at hdot
    exact absurd rfl hdot
  · rfl

/-- The line of a header names the table that is opened. -/
theorem header?_sectionHeader {name : Text} (h : IsBareKey name) (rest : Text) :
    header? (name ++ ']' :: '\n' :: rest) = some ([name], rest) := by
  have hkey : key? (name ++ ']' :: '\n' :: rest) = some ([name], ']' :: '\n' :: rest) :=
    key?_bare h (by simp; rfl) (by simp [skipSpace, isSpace])
  rw [header?, hkey]
  rfl

/-- The line of an assignment gives its value to its key. -/
theorem assignment?_line {key : Text} (h : IsBareKey key) {text : Text} {value : SettingValue}
    (hvalue : StandsFor text value) (rest : Text) :
    assignment? (key ++ ' ' :: '=' :: ' ' :: (text ++ '\n' :: rest)) =
      some ([key], value, rest) := by
  have hkey : key? (key ++ ' ' :: '=' :: ' ' :: (text ++ '\n' :: rest)) =
      some ([key], '=' :: ' ' :: (text ++ '\n' :: rest)) :=
    key?_bare h (by simp; rfl) (by simp [skipSpace, isSpace])
  have hblank : skipSpace (' ' :: (text ++ '\n' :: rest)) = text ++ '\n' :: rest := by
    have hspace : isSpace ' ' = true := rfl
    rw [skipSpace, List.dropWhile_cons_of_pos hspace]
    apply skipSpace_of_head?
    rcases text with _ | ⟨c, text⟩
    · simp; rfl
    · exact hvalue.notSpace
  rw [assignment?, hkey]
  simp only [hblank, hvalue.value?]
  rfl

/-! ## Sections -/

/-- A field of a section, with the text behind its equals sign. -/
structure Field where
  key : String
  text : Text
  value : SettingValue
  isBareKey : IsBareKey key.toList
  standsFor : StandsFor text value

namespace Field

/-- The line of the field. -/
def line (field : Field) : Text :=
  assignment field.key field.text

/-- The field in an unfinished table. -/
def entry (field : Field) : Text × Item :=
  (field.key.toList, .value field.value)

/-- The field in a table. -/
def setting (field : Field) : Text × SettingValue :=
  (field.key.toList, field.value)

end Field

/-- A new name has the value that it was added with. -/
theorem lookup_last {α : Type} {before : List (Text × α)} {name : Text}
    (h : name ∉ before.map Prod.fst) (value : α) :
    (before ++ [(name, value)]).lookup name = some value := by
  rw [List.lookup_append, lookup_eq_none_iff_notMem_keys.2 h, Option.none_or,
    lookup_cons_eq_ite, if_pos rfl]

/-- The item of a new name is replaced where it was added. -/
theorem replace_last {before : Entries} {name : Text} (h : name ∉ before.map Prod.fst)
    (old item : Item) :
    Entries.replace name item (before ++ [(name, old)]) = before ++ [(name, item)] := by
  induction before with
  | nil =>
    unfold Entries.replace
    simp
  | cons entry before ih =>
    rw [List.map_cons, List.mem_cons, not_or] at h
    have hrest := ih h.2
    unfold Entries.replace at hrest ⊢
    rw [List.cons_append, List.map_cons, hrest]
    simp [Ne.symm h.1]

/-- A value is put behind the ones that its section already has. -/
theorem putUnder_last {before given : Entries} {name key : Text}
    (hname : name ∉ before.map Prod.fst) (hkey : key ∉ given.map Prod.fst) (value : SettingValue) :
    Entries.putUnder [name] [key] value (before ++ [(name, .table .header given)]) =
      some (before ++ [(name, .table .header (given ++ [(key, .value value)]))]) := by
  have hput : Entries.put false .header [key] value given =
      some (given ++ [(key, .value value)]) := by
    rw [Entries.put, if_pos ⟨rfl, by rw [lookup_eq_none_iff_notMem_keys.2 hkey]; rfl⟩]
  rw [Entries.putUnder, Entries.changeUnder, lookup_last hname]
  simp only [Entries.changeInside, Entries.putUnder, hput, Option.map_some, replace_last hname]

/-- The line of a field puts its value under the header. -/
theorem lines?_line (field : Field) (steps : Nat) (header : List Text) (entries : Entries)
    (rest : Text) :
    lines? (steps + 1) header entries (field.line ++ rest) =
      (Entries.putUnder header [field.key.toList] field.value entries).bind
        (lines? steps header · rest) := by
  have hline : field.line ++ rest =
      field.key.toList ++ ' ' :: '=' :: ' ' :: (field.text ++ '\n' :: rest) := by
    simp [Field.line, assignment, Text.line]
  have hassignment := assignment?_line field.isBareKey field.standsFor rest
  obtain ⟨c, more, hkey, hc⟩ := field.isBareKey.exists_cons
  rw [hline]
  rw [hkey, List.cons_append] at hassignment ⊢
  have hbracket : c ≠ '[' := isBareKeyChar_ne hc rfl
  have hend : c ≠ '\n' := isBareKeyChar_ne hc rfl
  have hcomment : c ≠ '#' := isBareKeyChar_ne hc rfl
  rw [lines?, skipSpace_of_bareKeyChar hc]
  simp [hbracket, hend, hcomment, hassignment]

/-- The fields of the section that was opened last. -/
theorem lines?_fields {before : Entries} {name : Text} (hname : name ∉ before.map Prod.fst)
    (fields : List Field) {given : Entries}
    (hkeys : (given.map Prod.fst ++ fields.map fun field => field.key.toList).Nodup) (steps : Nat)
    (rest : Text) :
    lines? (steps + fields.length) [name] (before ++ [(name, .table .header given)])
        (fields.flatMap Field.line ++ rest) =
      lines? steps [name] (before ++ [(name, .table .header (given ++ fields.map Field.entry))])
        rest := by
  induction fields generalizing given with
  | nil => simp
  | cons field fields ih =>
    have hkey : field.key.toList ∉ given.map Prod.fst := fun hmem =>
      (List.nodup_cons.1 (List.nodup_middle.1 hkeys)).1 (List.mem_append_left _ hmem)
    have hrest := @ih (given ++ [field.entry]) (by
      simpa [Field.entry] using hkeys)
    rw [List.flatMap_cons, List.append_assoc, List.length_cons, ← Nat.add_assoc, lines?_line,
      putUnder_last hname hkey, Option.bind_some]
    rw [List.append_assoc] at hrest
    exact hrest

/-- A section with its fields. No two of them have the same key, and none has a key that changes
what a table stands for. -/
structure Section where
  name : String
  fields : List Field
  isBareKey : IsBareKey name.toList
  distinct : (SettingValue.reservedKey :: SettingValue.valueKey ::
    fields.map fun field => field.key.toList).Nodup

namespace Section

/-- The lines of the section. -/
def text (part : Section) : Text :=
  sectionHeader part.name ++ part.fields.flatMap Field.line

/-- The section in an unfinished document. -/
def entry (part : Section) : Text × Item :=
  (part.name.toList, .table .header (part.fields.map Field.entry))

/-- The section in a table. -/
def setting (part : Section) : Text × SettingValue :=
  (part.name.toList, .table (part.fields.map Field.setting))

end Section

/-- The header of a new section adds an empty table, under which the next lines go. -/
theorem lines?_sectionHeader {name : String} (h : IsBareKey name.toList) {entries : Entries}
    (hname : name.toList ∉ entries.map Prod.fst) (steps : Nat) (header : List Text) (rest : Text) :
    lines? (steps + 1) header entries (sectionHeader name ++ rest) =
      lines? steps [name.toList] (entries ++ [(name.toList, .table .header [])]) rest := by
  have hline : sectionHeader name ++ rest = '[' :: (name.toList ++ ']' :: '\n' :: rest) := by
    simp [sectionHeader, Text.line]
  have hheader := header?_sectionHeader h rest
  have hopen : Entries.openTable [name.toList] entries =
      some (entries ++ [(name.toList, .table .header [])]) := by
    rw [Entries.openTable, lookup_eq_none_iff_notMem_keys.2 hname]
  obtain ⟨c, more, hkey, hc⟩ := h.exists_cons
  have hbracket : c ≠ '[' := isBareKeyChar_ne hc rfl
  have hblank : ∀ text, skipSpace ('[' :: text) = '[' :: text := fun _ => rfl
  rw [hline]
  rw [hkey, List.cons_append] at hheader ⊢
  rw [lines?, hblank]
  rw [hkey] at hopen
  simp [hbracket, hheader, hopen]

/-- An empty line says nothing. -/
theorem lines?_emptyLine (steps : Nat) (header : List Text) (entries : Entries) (rest : Text) :
    lines? (steps + 1) header entries ('\n' :: rest) = lines? steps header entries rest := by
  rw [lines?]
  rfl

/-- A new section adds one table of its fields. -/
theorem lines?_section {entries : Entries} (part : Section)
    (hname : part.name.toList ∉ entries.map Prod.fst) (steps : Nat) (header : List Text)
    (rest : Text) :
    lines? (steps + part.fields.length + 1) header entries (part.text ++ rest) =
      lines? steps [part.name.toList] (entries ++ [part.entry]) rest := by
  have hkeys : (List.map Prod.fst ([] : Entries) ++
      part.fields.map fun field => field.key.toList).Nodup := part.distinct.of_cons.of_cons
  rw [Section.text, List.append_assoc, lines?_sectionHeader part.isBareKey hname,
    lines?_fields hname part.fields hkeys]
  rfl

/-! ## Documents -/

/-- Sections with empty lines between them. -/
def document (first : Section) (others : List Section) : Text :=
  first.text ++ others.flatMap fun part => '\n' :: part.text

/-- Each line of a section takes at least one character. -/
theorem length_fields_lt (part : Section) : part.fields.length < part.text.length := by
  have hline : ∀ field : Field, field.line ≠ [] := by
    intro field
    simp [Field.line, assignment, Text.line]
  have hfields := length_le_length_flatMap hline part.fields
  rw [Section.text, List.length_append, sectionHeader, Text.line, List.length_append,
    List.length_singleton]
  omega

/-- Every section behind an empty line is opened and gets its fields. -/
theorem lines?_sections (others : List Section) {before : Entries}
    (hnames : (before.map Prod.fst ++ others.map fun part => part.name.toList).Nodup)
    (header : List Text) {steps : Nat}
    (hsteps : (others.flatMap fun part => '\n' :: part.text).length < steps) :
    lines? steps header before (others.flatMap fun part => '\n' :: part.text) =
      some (before ++ others.map Section.entry) := by
  induction others generalizing before header steps with
  | nil =>
    obtain ⟨steps, rfl⟩ := Nat.exists_eq_add_of_lt hsteps
    rw [List.map_nil, List.append_nil, lines?]
    rfl
  | cons part others ih =>
    have hname : part.name.toList ∉ before.map Prod.fst := fun hmem =>
      (List.nodup_cons.1 (List.nodup_middle.1 hnames)).1 (List.mem_append_left _ hmem)
    have hlength := length_fields_lt part
    rw [List.flatMap_cons, List.length_append, List.length_cons] at hsteps
    obtain ⟨more, rfl⟩ : ∃ more, steps = more + part.fields.length + 1 + 1 :=
      ⟨steps - part.fields.length - 2, by omega⟩
    rw [List.flatMap_cons, List.cons_append, lines?_emptyLine, lines?_section part hname,
      ih (by simpa [Section.entry] using hnames) _ (by omega), List.append_assoc]
    rfl

/-- Every section of a document is opened and gets its fields. -/
theorem lines?_document {first : Section} {others : List Section}
    (hnames : ((first :: others).map fun part => part.name.toList).Nodup) {steps : Nat}
    (hsteps : (document first others).length < steps) :
    lines? steps [] [] (document first others) =
      some ((first :: others).map Section.entry) := by
  have hlength := length_fields_lt first
  unfold document at hsteps ⊢
  rw [List.length_append] at hsteps
  obtain ⟨more, rfl⟩ : ∃ more, steps = more + first.fields.length + 1 :=
    ⟨steps - first.fields.length - 1, by omega⟩
  rw [lines?_section first (by simp),
    lines?_sections others (by simpa [Section.entry] using hnames) _ (by omega)]
  rfl

/-- The entries of fields say what the fields say. -/
theorem entriesTable?_fields (fields : List Field) :
    entriesTable? (fields.map Field.entry) = some (fields.map Field.setting) := by
  induction fields with
  | nil => rfl
  | cons field fields ih =>
    rw [List.map_cons, Field.entry, entriesTable?, ih]
    rfl

/-- The settings of fields have the keys of the fields. -/
theorem keys_setting (fields : List Field) :
    (fields.map Field.setting).map Prod.fst = fields.map fun field => field.key.toList := by
  rw [List.map_map]
  rfl

/-- A section says the table of its fields. -/
theorem value?_section (part : Section) :
    part.entry.2.value? = some (.table (part.fields.map Field.setting)) := by
  obtain ⟨hreservedKey, hdistinct⟩ := List.nodup_cons.1 part.distinct
  have hreserved : (part.fields.map Field.setting).lookup SettingValue.reservedKey = none := by
    rw [lookup_eq_none_iff_notMem_keys, keys_setting]
    exact fun hmem => hreservedKey (List.mem_cons_of_mem _ hmem)
  have hvalue : (part.fields.map Field.setting).lookup SettingValue.valueKey = none := by
    rw [lookup_eq_none_iff_notMem_keys, keys_setting]
    exact (List.nodup_cons.1 hdistinct).1
  rw [Section.entry, Item.value?, entriesTable?_fields, Option.bind_some, SettingValue.ofTable?,
    hreserved, hvalue]
  rfl

/-- The entries of sections say what the sections say. -/
theorem entriesTable?_sections (parts : List Section) :
    entriesTable? (parts.map Section.entry) = some (parts.map Section.setting) := by
  induction parts with
  | nil => rfl
  | cons part parts ih =>
    have hvalue := value?_section part
    rw [List.map_cons, Section.entry, entriesTable?, ih]
    rw [Section.entry] at hvalue
    rw [hvalue]
    rfl

/-- Without carriage returns all lines end with a line feed already. -/
theorem unixLines_of_notMem {text : Text} (h : '\r' ∉ text) : unixLines text = text := by
  induction text with
  | nil => rfl
  | cons c text ih =>
    rw [List.mem_cons, not_or] at h
    rw [unixLines, ih h.2]
    rintro rest rfl
    exact absurd rfl h.1

/-- A key has no carriage return in it. -/
theorem IsBareKey.return_notMem {key : Text} (h : IsBareKey key) : '\r' ∉ key := fun hmem =>
  isBareKeyChar_ne (h.2 _ hmem) rfl rfl

/-- A section has no carriage return in it. -/
theorem return_notMem_section (part : Section) : '\r' ∉ part.text := by
  have hfield : ∀ field : Field, '\r' ∉ field.line := by
    intro field
    simp [Field.line, assignment, Text.line, field.isBareKey.return_notMem,
      field.standsFor.noReturn]
  simp [Section.text, sectionHeader, Text.line, part.isBareKey.return_notMem, hfield]

/-- A document is read as the table of its sections. -/
theorem read?_document {first : Section} {others : List Section}
    (hnames : ((first :: others).map fun part => part.name.toList).Nodup) :
    read? (document first others) = some ((first :: others).map Section.setting) := by
  have hmark : withoutMark (document first others) = document first others := rfl
  have hreturn : '\r' ∉ document first others := by
    simp [document, return_notMem_section]
  rw [read?, hmark, unixLines_of_notMem hreturn]
  simp only [lines?_document hnames (Nat.lt_succ_self _), Option.bind_some, entriesTable?_sections]

end Toml

end EventFinder
