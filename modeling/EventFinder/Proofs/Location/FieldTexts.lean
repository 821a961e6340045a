import EventFinder.Location.Event
import EventFinder.Proofs.Text.Splitting

/-!
# The texts of fields

What the fields of an event are written as, and that each of these texts is read back: numbers that
fit in 64 bits with the zeros in front of them (`decodeNumber_zeroPadded`), lists of names that are
trimmed and hold no comma (`decodeList_joined`), and month names (`number?_of_name?`).
-/

set_option autoImplicit false

namespace EventFinder

namespace Text

/-- Zeros in front of digits do not change the number. -/
theorem digits?_replicate_append (zeros n : Nat) :
    digits? (List.replicate zeros '0' ++ ofNat n) = some n := by
  have hne : List.replicate zeros '0' ++ ofNat n ≠ [] := by
    simp [ofNat, Nat.toDigits_ne_nil]
  have hall : (List.replicate zeros '0' ++ ofNat n).all Char.isDigit = true := by
    rw [List.all_append, all_isDigit_ofNat, Bool.and_true, List.all_replicate]
    split
    · rfl
    · decide
  have hvalue : Nat.ofDigitChars 10 (List.replicate zeros '0' ++ ofNat n) 0 = n := by
    rw [Nat.ofDigitChars_append, Nat.ofDigitChars_replicate_zero, Nat.mul_zero]
    exact Nat.ofDigitChars_ten_toDigits
  rw [digits?, if_pos ⟨hne, hall⟩, hvalue]

/-- A padded number is not empty. -/
theorem zeroPadded_ne_nil (width : Nat) (i : Int) : zeroPadded width i ≠ [] := by
  simp [zeroPadded, ofNat, Nat.toDigits_ne_nil]

/-- A padded number without a sign holds only digits. -/
theorem zeroPadded_of_nonneg {i : Int} (h : 0 ≤ i) (width : Nat) :
    zeroPadded width i = List.replicate (width - (ofInt i).length) '0' ++ ofNat i.natAbs := by
  rw [zeroPadded, signOf, if_neg (by omega), List.nil_append]

/-- A padded number is read as itself, for zeros in front change no value. -/
theorem int?_zeroPadded (width : Nat) (i : Int) : int? (zeroPadded width i) = some i := by
  by_cases h : i < 0
  · rw [zeroPadded, signOf, if_pos h, List.append_assoc, List.singleton_append, int?,
      digits?_replicate_append]
    show some (-(i.natAbs : Int)) = some i
    rw [show -(i.natAbs : Int) = i by omega]
  · obtain ⟨c, text, hcons⟩ := List.exists_cons_of_ne_nil (zeroPadded_ne_nil width i)
    have hvalue := digits?_replicate_append (width - (ofInt i).length) i.natAbs
    rw [← zeroPadded_of_nonneg (by omega)] at hvalue
    have hdigit : c.isDigit = true := by
      simp only [digits?, hcons, Option.ite_none_right_eq_some, List.all_cons,
        Bool.and_eq_true] at hvalue
      exact hvalue.1.2.1
    rw [hcons, int?_of_isDigit hdigit, ← hcons, hvalue]
    show some (i.natAbs : Int) = some i
    rw [show (i.natAbs : Int) = i by omega]

/-- A blank in front is trimmed off. -/
theorem trim_cons_blank {c : Char} (h : isBlank c = true) (text : Text) :
    trim (c :: text) = trim text := by
  simp [trim, trimStart, h]

end Text

/-! ## Numbers -/

/-- A padded number that fits is read as itself, strictly only if it has no sign. -/
theorem decodeNumber_zeroPadded {mode : NumberMode} {i : Int} (hfits : fits64 i = true)
    (hmode : mode = .strict → 0 ≤ i) (placeholder : Placeholder) (width : Nat) :
    decodeNumber mode placeholder (Text.zeroPadded width i) = .ok i := by
  have hne : ¬ (Text.zeroPadded width i).isEmpty = true := by
    simpa using Text.zeroPadded_ne_nil width i
  cases mode with
  | lenient =>
    rw [decodeNumber, if_neg hne]
    simp [Text.int64?, Text.int?_zeroPadded, Option.filter, hfits]
  | strict =>
    have hcast : (i.natAbs : Int) = i := Int.natAbs_of_nonneg (hmode rfl)
    rw [decodeNumber, if_neg hne, Text.zeroPadded_of_nonneg (hmode rfl),
      Text.digits?_replicate_append]
    simp [hcast, Option.filter, hfits]

/-! ## Lists of names -/

/-- Names that a list field can hold: trimmed, without commas, and not the empty name alone, which
is written like no name at all. -/
structure Listable (names : List Text) : Prop where
  trim_eq : ∀ name ∈ names, Text.trim name = name
  comma_notMem : ∀ name ∈ names, ',' ∉ name
  ne_singleton_nil : names ≠ [[]]

/-- Joined names are empty only if there is no name or the empty one alone. -/
theorem intercalate_listSeparator_eq_nil {names : List Text} :
    listSeparator.intercalate names = [] ↔ names = [] ∨ names = [[]] := by
  rcases names with _ | ⟨first, _ | ⟨second, names⟩⟩ <;> simp [listSeparator]

/-- Names that a list field can hold are read back. -/
theorem decodeList_joined {names : List Text} (h : Listable names) :
    decodeList (listSeparator.intercalate names) = names := by
  obtain _ | ⟨first, rest⟩ := names
  · rfl
  have hne : (listSeparator.intercalate (first :: rest)).isEmpty = false := by
    simpa [intercalate_listSeparator_eq_nil] using h.ne_singleton_nil
  have hpieces : (listSeparator.intercalate (first :: rest)).splitOn ',' =
      first :: rest.map ([' '] ++ ·) :=
    splitOn_intercalate_cons [' '] (by decide) (h.comma_notMem first (by simp))
      fun part hpart => h.comma_notMem part (List.mem_cons_of_mem _ hpart)
  have hrest : (rest.map ([' '] ++ ·)).map Text.trim = rest := by
    rw [List.map_map]
    refine (List.map_congr_left fun name hname => ?_).trans (List.map_id rest)
    show Text.trim (' ' :: name) = name
    rw [Text.trim_cons_blank rfl]
    exact h.trim_eq name (List.mem_cons_of_mem _ hname)
  rw [decodeList, if_neg (by simp [hne]), hpieces, List.map_cons, hrest, h.trim_eq first (by simp)]

/-! ## Months -/

/-- A month is found again by its name. -/
theorem Month.number?_of_name? {month : Int} {name : Text} (h : name? month = some name) :
    ∃ number : Nat, number? name = some number ∧ (number : Int) = month := by
  unfold name? at h
  split at h
  · rename_i hpos
    obtain ⟨hlt, -⟩ := List.getElem?_eq_some_iff.1 h
    obtain ⟨n, hn⟩ : ∃ n : Fin 12, month = (n.val : Int) + 1 :=
      ⟨⟨(month - 1).toNat, hlt⟩, by simp only []; omega⟩
    have := number?_name? n
    rw [← hn, name?, if_pos hpos, h] at this
    exact ⟨n.val + 1, this, by omega⟩
  · cases h

end EventFinder
