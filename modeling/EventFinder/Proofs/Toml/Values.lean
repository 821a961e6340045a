import Mathlib.Algebra.Order.BigOperators.Group.List
import EventFinder.Proofs.Toml.Strings
import EventFinder.Toml.Document

/-!
# Written values are read

A written string, list of strings or truth value at the end of a line is read as the value that it
was written for (`StandsFor`). The reader of lists looks for the next item behind blanks and line
ends, so that it reads both layouts of a list: one item on the line of the key, and several on lines
of their own (`items?_itemLines`). Its steps are enough, since every item is written with at least
one character.
-/

set_option autoImplicit false

namespace EventFinder

namespace Toml

/-- A written string starts with a quote of either kind. -/
theorem exists_ofText_eq_cons (text : Text) :
    ∃ quote more, ofText text = quote :: more ∧ (quote = '"' ∨ quote = '\'') := by
  unfold ofText
  cases StringForm.ofText text with
  | basic => exact ⟨_, _, rfl, .inl rfl⟩
  | literal => exact ⟨_, _, rfl, .inr rfl⟩
  | longBasic => exact ⟨_, _, rfl, .inl rfl⟩
  | longLiteral => exact ⟨_, _, rfl, .inr rfl⟩

/-- A string is a value at any depth, and takes one step. -/
theorem valueWithin?_ofText {rest : Text} (hquote : rest.head? ≠ some '"')
    (hapostrophe : rest.head? ≠ some '\'') (depth steps : Nat) (text : Text) :
    valueWithin? depth (steps + 1) (ofText text ++ rest) = some (.text text, rest) := by
  have hstring := string?_ofText hquote hapostrophe text
  obtain ⟨quote, more, htext, rfl | rfl⟩ := exists_ofText_eq_cons text
  · rw [htext, List.cons_append] at hstring ⊢
    cases depth <;> simp only [valueWithin?, hstring, Option.map_some]
  · rw [htext, List.cons_append] at hstring ⊢
    cases depth <;> simp only [valueWithin?, hstring, Option.map_some]

/-- Nothing is skipped in front of a written string. -/
theorem skipLines_ofText (text rest : Text) :
    skipLines false (ofText text ++ rest) = some (ofText text ++ rest) := by
  obtain ⟨quote, more, htext, rfl | rfl⟩ := exists_ofText_eq_cons text <;> rw [htext] <;> rfl

/-- A written string does not look like the end of a list. -/
theorem ofText_append_ne_bracket (text rest more : Text) : ofText text ++ rest ≠ ']' :: more := by
  obtain ⟨quote, content, htext, rfl | rfl⟩ := exists_ofText_eq_cons text <;>
    (rw [htext]; intro h; cases h)

/-- An item that is a string with a comma behind it, and the items that follow. -/
theorem items?_of_comma {text item rest : Text}
    (h : skipLines false text = some (ofText item ++ ',' :: rest)) (depth steps : Nat) :
    items? depth (steps + 2) text =
      (items? depth (steps + 1) rest).map fun (items, rest) => (.text item :: items, rest) := by
  have hvalue : valueWithin? depth (steps + 1) (ofText item ++ ',' :: rest) =
      some (.text item, ',' :: rest) := valueWithin?_ofText (by simp) (by simp) depth steps item
  have hcomma : skipLines false (',' :: rest) = some (',' :: rest) := rfl
  -- `simp` has to know that the string is no closing bracket to choose the case of an item.
  have hitem := ofText_append_ne_bracket item (',' :: rest)
  rw [items?, h]
  simp only [hvalue, hcomma]

/-- The last item, with the closing bracket behind it. -/
theorem items?_of_bracket {text item rest : Text}
    (h : skipLines false text = some (ofText item ++ ']' :: rest)) (depth steps : Nat) :
    items? depth (steps + 2) text = some ([.text item], rest) := by
  have hvalue : valueWithin? depth (steps + 1) (ofText item ++ ']' :: rest) =
      some (.text item, ']' :: rest) := valueWithin?_ofText (by simp) (by simp) depth steps item
  have hbracket : skipLines false (']' :: rest) = some (']' :: rest) := rfl
  have hitem := ofText_append_ne_bracket item (']' :: rest)
  rw [items?, h]
  simp only [hvalue, hbracket]

/-- An item on a line of its own, with a comma behind it. -/
def itemLine (item : Text) : Text :=
  Text.line ("    ".toList ++ ofText item ++ [','])

/-- In front of an item, its line and its indent are skipped. -/
theorem skipLines_itemLine (item rest : Text) :
    skipLines false ('\n' :: (itemLine item ++ rest)) =
      some (ofText item ++ ',' :: '\n' :: rest) := by
  have hline : '\n' :: (itemLine item ++ rest) =
      "\n    ".toList ++ (ofText item ++ ',' :: '\n' :: rest) := by
    simp [itemLine, Text.line]
  rw [hline]
  exact skipLines_ofText item _

/-- Items on lines of their own, up to the closing bracket. -/
theorem items?_itemLines (depth : Nat) (items : List Text) {steps : Nat}
    (hsteps : items.length < steps) (rest : Text) :
    items? depth steps ('\n' :: (items.flatMap itemLine ++ ']' :: rest)) =
      some (items.map .text, rest) := by
  induction items generalizing steps with
  | nil =>
    obtain ⟨steps, rfl⟩ := Nat.exists_eq_add_of_lt hsteps
    rw [items?]
    rfl
  | cons item items ih =>
    obtain ⟨more, rfl⟩ := Nat.exists_eq_add_of_lt hsteps
    have hitems := @ih (items.length + more + 1) (by omega)
    have hstart := skipLines_itemLine item (items.flatMap itemLine ++ ']' :: rest)
    rw [List.flatMap_cons, List.append_assoc, List.length_cons]
    rw [show items.length + 1 + more + 1 = items.length + more + 2 by omega,
      items?_of_comma hstart, hitems]
    rfl

/-- A list is read if its items are. -/
theorem valueWithin?_list {depth steps : Nat} {text rest : Text} {items : List SettingValue}
    (h : items? depth steps text = some (items, rest)) :
    valueWithin? (depth + 1) (steps + 1) ('[' :: text) = some (.list items, rest) := by
  simp only [valueWithin?, h, Option.map_some]

/-- A list of two texts or more has a line for each. -/
theorem ofTexts_of_two (first second : Text) (items : List Text) :
    ofTexts (first :: second :: items) =
      '[' :: '\n' :: (first :: second :: items).flatMap itemLine ++ [']'] :=
  rfl

/-- A list of strings is a value. -/
theorem valueWithin?_ofTexts (depth : Nat) {items : List Text} {steps : Nat}
    (hsteps : items.length + 1 < steps) (rest : Text) :
    valueWithin? (depth + 1) steps (ofTexts items ++ rest) =
      some (.list (items.map .text), rest) := by
  obtain ⟨more, rfl⟩ : ∃ more, steps = items.length + more + 2 :=
    ⟨steps - items.length - 2, by omega⟩
  rcases items with _ | ⟨first, _ | ⟨second, items⟩⟩
  · apply valueWithin?_list
    rw [items?]
    rfl
  · have hlist : ofTexts [first] ++ rest = '[' :: (ofText first ++ ']' :: rest) := by
      simp [ofTexts]
    have hsteps : [first].length + more + 1 = more + 2 := by
      rw [List.length_singleton]
      omega
    rw [hlist]
    apply valueWithin?_list
    rw [hsteps]
    exact items?_of_bracket (skipLines_ofText first _) depth more
  · have hlist : ofTexts (first :: second :: items) ++ rest =
        '[' :: '\n' :: ((first :: second :: items).flatMap itemLine ++ ']' :: rest) := by
      rw [ofTexts_of_two]
      simp
    rw [hlist]
    apply valueWithin?_list
    exact items?_itemLines depth _ (by omega) rest

/-! ## Texts that stand for values -/

/-- A text stands for the value that it is read as at the end of a line. It starts with no blank,
and it has no carriage return, which could be taken for a part of a line end. -/
structure StandsFor (text : Text) (value : SettingValue) : Prop where
  value? : ∀ rest, value? (text ++ '\n' :: rest) = some (value, '\n' :: rest)
  notSpace : ∀ c ∈ text.head?, isSpace c = false
  noReturn : '\r' ∉ text

/-- A written string stands for its text. -/
theorem standsFor_ofText (text : Text) : StandsFor (ofText text) (.text text) where
  value? rest := valueWithin?_ofText (by simp) (by simp) _ _ text
  notSpace := by
    obtain ⟨quote, more, htext, rfl | rfl⟩ := exists_ofText_eq_cons text <;>
      (rw [htext]; simp; rfl)
  noReturn := return_notMem_ofText text

/-- Written parts that are not empty are at least as long as there are many. -/
theorem length_le_length_flatMap {α : Type} {write : α → Text} (h : ∀ part, write part ≠ [])
    (parts : List α) : parts.length ≤ (parts.flatMap write).length := by
  have hlengths : ∀ n ∈ parts.map fun part => (write part).length, 1 ≤ n := by
    intro n hn
    obtain ⟨part, -, rfl⟩ := List.mem_map.1 hn
    exact List.length_pos_iff.2 (h part)
  have hsum := List.length_le_sum_of_one_le _ hlengths
  rw [List.length_map] at hsum
  rw [List.length_flatMap]
  exact hsum

/-- The line of an item is not empty. -/
theorem itemLine_ne_nil (item : Text) : itemLine item ≠ [] := by
  simp [itemLine, Text.line]

/-- A written list has at least one character for each item. -/
theorem length_le_ofTexts (items : List Text) : items.length ≤ (ofTexts items).length := by
  rcases items with _ | ⟨first, _ | ⟨second, items⟩⟩
  · exact Nat.zero_le _
  · simp [ofTexts]
  · have hlength := length_le_length_flatMap (fun item => itemLine_ne_nil item)
      (first :: second :: items)
    rw [ofTexts_of_two, List.cons_append, List.cons_append]
    simp only [List.length_append, List.length_cons] at hlength ⊢
    omega

/-- A written list has no carriage return in it. -/
theorem return_notMem_ofTexts (items : List Text) : '\r' ∉ ofTexts items := by
  rcases items with _ | ⟨first, _ | ⟨second, items⟩⟩
  · decide
  · simp [ofTexts, return_notMem_ofText]
  · have hline : ∀ item, '\r' ∉ itemLine item := by
      intro item
      simp [itemLine, Text.line, return_notMem_ofText]
    simp [ofTexts_of_two, hline]

/-- A written list stands for its texts. -/
theorem standsFor_ofTexts (items : List Text) :
    StandsFor (ofTexts items) (.list (items.map .text)) where
  value? rest := by
    have hlength := length_le_ofTexts items
    refine valueWithin?_ofTexts 78 ?_ _
    rw [List.length_append, List.length_cons]
    omega
  notSpace := by
    rcases items with _ | ⟨first, _ | ⟨second, items⟩⟩ <;> simp [ofTexts, Text.line] <;> rfl
  noReturn := return_notMem_ofTexts items

/-- A written truth value stands for itself. -/
theorem standsFor_ofBool (value : Bool) : StandsFor (Text.ofBool value) (.flag value) where
  value? rest := by cases value <;> rfl
  notSpace := by
    cases value <;>
      (rintro c ⟨⟩; rfl)
  noReturn := by cases value <;> decide

end Toml

end EventFinder
