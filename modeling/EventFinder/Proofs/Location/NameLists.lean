import EventFinder.Proofs.Location.FieldTexts
import Mathlib.Data.List.DropRight

/-!
# Lists of names in normal form

The names of a list field are the pieces of a text between its commas, and each of them is trimmed.
Trimming takes the blanks off both ends of a text and nothing else (`Text.exists_blanks_trim`), and
it leaves exactly those texts alone that have no blank at an end (`Text.trim_eq_self_iff`). Nothing
more than this is asked of names: the lists that texts decode to are all lists of trimmed names
without commas (`exists_decodeList_eq_iff`).

So a decoded list is written and decoded again without a change, empty names included. The one
exception is a text of nothing but blanks. It is not empty, so that it decodes to the empty name
alone, and this list is written like the list without any name (`decodeList_joined_decodeList`).
-/

set_option autoImplicit false

namespace EventFinder

/-! ## Trimmed texts -/

namespace Text

/-- A text that neither starts nor ends with a blank. -/
structure IsTrimmed (text : Text) : Prop where
  head : ∀ c ∈ text.head?, isBlank c = false
  last : ∀ c ∈ text.getLast?, isBlank c = false

/-- A text that is not empty and holds nothing but blanks. -/
def OnlyBlanks (text : Text) : Prop :=
  text ≠ [] ∧ ∀ c ∈ text, isBlank c = true

/-- All characters are tested. -/
instance (text : Text) : Decidable text.OnlyBlanks :=
  decidable_of_iff (text.isEmpty = false ∧ text.all isBlank = true) <| by
    rw [OnlyBlanks, List.isEmpty_eq_false_iff, List.all_eq_true]

/-- The text is what trimming leaves, between blanks. -/
theorem exists_blanks_trim (text : Text) :
    ∃ before after : Text, (∀ c ∈ before, isBlank c = true) ∧ (∀ c ∈ after, isBlank c = true) ∧
      text = before ++ trim text ++ after := by
  refine ⟨text.takeWhile isBlank, (text.dropWhile isBlank).rtakeWhile isBlank,
    fun c hc => List.mem_takeWhile_imp hc, fun c hc => List.mem_rtakeWhile_imp hc, ?_⟩
  calc text = text.takeWhile isBlank ++ text.dropWhile isBlank :=
        List.takeWhile_append_dropWhile.symm
    _ = text.takeWhile isBlank ++
          (trim text ++ (text.dropWhile isBlank).rtakeWhile isBlank) := by
        congr 1
        exact List.rdropWhile_append_rtakeWhile.symm
    _ = _ := (List.append_assoc _ _ _).symm

/-- Trimming leaves no blank at an end. -/
theorem isTrimmed_trim (text : Text) : (trim text).IsTrimmed where
  head c hc := by
    obtain ⟨rest, hrest⟩ := List.head?_eq_some_iff.1 hc
    -- The end that is taken off leaves the first character behind the blanks in place.
    obtain ⟨after, hafter⟩ : trim text <+: text.dropWhile isBlank := List.rdropWhile_prefix _ _
    have hnot := List.head?_dropWhile_not isBlank text
    rw [← hafter, hrest] at hnot
    exact hnot
  last c hc := by
    obtain ⟨hne, rfl⟩ := List.mem_getLast?_eq_getLast hc
    exact Bool.eq_false_iff.2 (List.rdropWhile_last_not isBlank (text.dropWhile isBlank) hne)

/-- Trimming leaves exactly the trimmed texts alone. -/
theorem trim_eq_self_iff {text : Text} : trim text = text ↔ text.IsTrimmed := by
  refine ⟨fun h => h ▸ isTrimmed_trim text, fun h => ?_⟩
  have hstart : text.dropWhile isBlank = text := by
    refine List.dropWhile_eq_self_iff.2 fun hpos => ?_
    simpa using h.head _ (List.head?_eq_getElem? ▸ List.getElem?_eq_getElem hpos)
  have hend : text.rdropWhile isBlank = text := by
    refine List.rdropWhile_eq_self_iff.2 fun hne => ?_
    simpa using h.last _ (List.getLast?_eq_some_getLast hne)
  calc trim text = (text.dropWhile isBlank).rdropWhile isBlank := rfl
    _ = text := by rw [hstart, hend]

/-- Nothing is left of blanks only. -/
theorem trim_eq_nil_iff {text : Text} : trim text = [] ↔ ∀ c ∈ text, isBlank c = true := by
  obtain ⟨before, after, hbefore, hafter, htext⟩ := exists_blanks_trim text
  constructor
  · intro h c hc
    rw [htext, h, List.append_nil, List.mem_append] at hc
    exact hc.elim (hbefore c) (hafter c)
  · intro h
    have hstart : text.dropWhile isBlank = [] := List.dropWhile_eq_nil_iff.2 h
    rw [trim, trimStart, hstart]
    rfl

/-- Trimming adds no character. -/
theorem mem_of_mem_trim {text : Text} {c : Char} (h : c ∈ trim text) : c ∈ text := by
  obtain ⟨before, after, -, -, htext⟩ := exists_blanks_trim text
  rw [htext]
  simp [h]

end Text

/-! ## Decoded lists -/

/-- A text that is not empty has a name between any two commas and at both ends, trimmed. -/
theorem decodeList_of_ne_nil {value : Text} (h : value ≠ []) :
    decodeList value = (value.splitOn ',').map Text.trim := by
  rw [decodeList, if_neg (by simpa using h)]

/-- A decoded name has no blanks around it and no comma in it. -/
theorem isTrimmed_of_mem_decodeList {value name : Text} (h : name ∈ decodeList value) :
    name.IsTrimmed ∧ ',' ∉ name := by
  have hne : value ≠ [] := by
    rintro rfl
    cases h
  rw [decodeList_of_ne_nil hne] at h
  obtain ⟨piece, hpiece, rfl⟩ := List.mem_map.1 h
  exact ⟨Text.isTrimmed_trim piece,
    fun hcomma => notMem_of_mem_splitOn hpiece (Text.mem_of_mem_trim hcomma)⟩

/-- Only a text of blanks decodes to the empty name alone. -/
theorem decodeList_eq_singleton_nil_iff {value : Text} :
    decodeList value = [[]] ↔ value.OnlyBlanks := by
  by_cases hne : value = []
  · subst hne
    decide
  rw [decodeList_of_ne_nil hne, Text.OnlyBlanks, and_iff_right hne]
  constructor
  · intro h
    obtain ⟨piece, hpieces, hpiece⟩ := List.map_eq_singleton_iff.1 h
    -- There is no comma to split at, so the only piece is the text.
    have hvalue : piece = value := by
      have hjoined : [','].intercalate (value.splitOn ',') = value := List.intercalate_splitOn ','
      rwa [hpieces, List.intercalate_singleton] at hjoined
    exact Text.trim_eq_nil_iff.1 (hvalue ▸ hpiece)
  · intro h
    have hcomma : ',' ∉ value := fun hmem => absurd (h ',' hmem) (by decide)
    rw [List.splitOn_eq_singleton hcomma, List.map_singleton, Text.trim_eq_nil_iff.2 h]

/-- Trimmed names without commas can be listed, unless the empty name stands alone. -/
theorem listable_of_isTrimmed {names : List Text}
    (h : ∀ name ∈ names, name.IsTrimmed ∧ ',' ∉ name) (hne : names ≠ [[]]) : Listable names where
  trim_eq name hname := Text.trim_eq_self_iff.2 (h name hname).1
  comma_notMem name hname := (h name hname).2
  ne_singleton_nil := hne

/-- The lists that texts decode to are those of trimmed names without commas. -/
theorem exists_decodeList_eq_iff {names : List Text} :
    (∃ value, decodeList value = names) ↔ ∀ name ∈ names, name.IsTrimmed ∧ ',' ∉ name := by
  constructor
  · rintro ⟨value, rfl⟩ name
    exact isTrimmed_of_mem_decodeList
  · intro h
    by_cases hne : names = [[]]
    · exact ⟨" ".toList, hne ▸ decodeList_eq_singleton_nil_iff.2 (by decide)⟩
    · exact ⟨listSeparator.intercalate names, decodeList_joined (listable_of_isTrimmed h hne)⟩

/-! ## Decoded lists written again -/

/-- A decoded list is written and decoded again without a change, unless the text was all blanks.
-/
theorem decodeList_joined_eq_iff {value : Text} :
    decodeList (listSeparator.intercalate (decodeList value)) = decodeList value ↔
      ¬ value.OnlyBlanks := by
  rw [← decodeList_eq_singleton_nil_iff]
  constructor
  · intro h hsingle
    rw [hsingle] at h
    cases h
  · intro hne
    exact decodeList_joined (listable_of_isTrimmed (exists_decodeList_eq_iff.1 ⟨value, rfl⟩) hne)

/-- Decoded names have no blanks around them and no comma in them, and a decoded list that is
written is decoded as itself, unless it comes from a text of nothing but blanks. Such a text decodes
to the empty name alone, which is written as the empty text and then decoded as no name. -/
theorem decodeList_joined_decodeList (value : Text) :
    (decodeList (listSeparator.intercalate (decodeList value)) = decodeList value ↔
      ¬ value.OnlyBlanks) ∧
    (value.OnlyBlanks → decodeList value = [[]] ∧
      decodeList (listSeparator.intercalate (decodeList value)) = []) ∧
    ∀ name ∈ decodeList value, name.IsTrimmed ∧ ',' ∉ name := by
  refine ⟨decodeList_joined_eq_iff, fun h => ?_, exists_decodeList_eq_iff.1 ⟨value, rfl⟩⟩
  have hsingle : decodeList value = [[]] := decodeList_eq_singleton_nil_iff.2 h
  exact ⟨hsingle, by rw [hsingle]; rfl⟩

/-- Empty pieces, a piece of blanks only and commas at both ends are kept. -/
theorem decodeList_joined_decodeList_of_empty_names :
    let value : Text := ", The B\t,\u00a0,".toList
    let names : List Text := [[], "The B".toList, [], []]
    decodeList value = names ∧ decodeList (listSeparator.intercalate names) = names ∧
      ∀ name ∈ names, name.IsTrimmed ∧ ',' ∉ name := by
  intro value names
  have hvalue : decodeList value = names := by decide +kernel
  obtain ⟨hagain, -, hnames⟩ := decodeList_joined_decodeList value
  rw [hvalue] at hagain hnames
  exact ⟨hvalue, hagain.2 (by decide +kernel), hnames⟩

/-- A captured blank is the empty name alone, and written and decoded again it is no name. -/
theorem decodeList_joined_decodeList_of_blank :
    let value : Text := " ".toList
    capture [.field .performers] value = .ok [(.performers, value)] ∧
      decodeList value = [[]] ∧
      decodeList (listSeparator.intercalate (decodeList value)) = [] ∧
      decodeList (listSeparator.intercalate (decodeList value)) ≠ decodeList value := by
  decide +kernel

end EventFinder
