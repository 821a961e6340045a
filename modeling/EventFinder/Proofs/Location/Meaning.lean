import EventFinder.Proofs.Location.MonthNames
import EventFinder.Proofs.Location.NumberModes

/-!
# What a record says

Decoding stores one capture after the other, and the last one of a placeholder stays. So a field of
a record is what that capture stands for, whatever the captures of other placeholders are
(`FieldsOf`). Whether a record is consistent is decided by all captures together: no two of one
placeholder may differ as texts, and a month name must be one, and that of the month where a month
was captured, even as the empty text (`monthAgrees_iff`).

The main statement is `decode_says_last_captures`.
-/

set_option autoImplicit false

namespace EventFinder

/-- The fields of a record are what the last captures of their placeholders stand for, and have
their defaults where there is none. -/
structure FieldsOf (mode : NumberMode) (captures : List Capture) (record : EventRecord) : Prop where
  number : ∀ placeholder : Placeholder, placeholder.isNumeric = true →
    match lastCapture? placeholder captures with
    | some value => decodeNumber mode placeholder value = .ok (record.number placeholder)
    | none => record.number placeholder = 0
  monthName : record.monthName = (lastCapture? .monthName captures).getD []
  performers : record.performers = ((lastCapture? .performers captures).map decodeList).getD []
  venue : record.venue = ((lastCapture? .venue captures).map Text.trim).getD []
  promoters : record.promoters = ((lastCapture? .promoters captures).map decodeList).getD []

/-! ## The texts of a record -/

namespace EventRecord

variable {mode : NumberMode} {record stored : EventRecord}

/-- Storing a capture changes the texts of its own field and no others. -/
theorem texts_store {placeholder : Placeholder} {value : Text}
    (h : record.store mode (placeholder, value) = .ok stored) :
    stored.monthName = (if placeholder = .monthName then value else record.monthName) ∧
      stored.performers =
        (if placeholder = .performers then decodeList value else record.performers) ∧
      stored.venue = (if placeholder = .venue then Text.trim value else record.venue) ∧
      stored.promoters =
        (if placeholder = .promoters then decodeList value else record.promoters) := by
  cases placeholder with
  | year | month | day =>
    obtain ⟨n, -, rfl⟩ := map_eq_ok_iff.1 h
    exact ⟨rfl, rfl, rfl, rfl⟩
  | _ =>
    cases h
    exact ⟨rfl, rfl, rfl, rfl⟩

/-- A field whose captures can always be read is read from the last one. -/
theorem text_storeAll {α : Type} (part : EventRecord → α) (means : Text → α) {own : Placeholder}
    (hstore : ∀ (record stored : EventRecord) (placeholder : Placeholder) (value : Text),
      record.store mode (placeholder, value) = .ok stored →
        part stored = if placeholder = own then means value else part record)
    {captures : List Capture} (hstored : storeAll mode record captures = .ok stored) :
    part stored = ((lastCapture? own captures).map means).getD (part record) := by
  have hlast := part_storeAll part (fun value x => x = means value)
    (fun record stored value h => by rw [hstore record stored own value h, if_pos rfl])
    (fun record stored placeholder value hne h => by
      rw [hstore record stored placeholder value h, if_neg hne]) hstored
  cases hvalue : lastCapture? own captures <;> simpa [hvalue] using hlast

/-- Captures that were stored in an empty record set each field as its last capture says. -/
theorem fieldsOf_storeAll {captures : List Capture}
    (hstored : storeAll mode {} captures = .ok stored) : FieldsOf mode captures stored where
  number placeholder hnumeric := by
    have hlast := number_storeAll hnumeric hstored
    cases hvalue : lastCapture? placeholder captures with
    | some value => simpa [hvalue] using hlast
    | none =>
      simp only [hvalue] at hlast
      rw [hlast]
      cases placeholder <;> rfl
  monthName := by
    have h := text_storeAll monthName id (fun _ _ _ _ h => (texts_store h).1) hstored
    rwa [Option.map_id, id] at h
  performers := text_storeAll performers decodeList (fun _ _ _ _ h => (texts_store h).2.1) hstored
  venue := text_storeAll venue Text.trim (fun _ _ _ _ h => (texts_store h).2.2.1) hstored
  promoters := text_storeAll promoters decodeList (fun _ _ _ _ h => (texts_store h).2.2.2) hstored

end EventRecord

/-! ## Consistency -/

/-- The first capture of a placeholder is one of the captures. -/
theorem firstCapture?_eq_some {placeholder : Placeholder} {captures : List Capture} {value : Text}
    (h : firstCapture? placeholder captures = some value) : (placeholder, value) ∈ captures := by
  obtain ⟨⟨own, text⟩, hfound, rfl⟩ := Option.map_eq_some_iff.1 h
  have hown : own = placeholder := by simpa using List.find?_some hfound
  subst hown
  exact List.mem_of_find?_eq_some hfound

/-- A placeholder that has captures has a first one. -/
theorem exists_firstCapture? {placeholder : Placeholder} {captures : List Capture} {value : Text}
    (h : (placeholder, value) ∈ captures) :
    ∃ first, firstCapture? placeholder captures = some first := by
  cases hfirst : firstCapture? placeholder captures with
  | some first => exact ⟨first, rfl⟩
  | none =>
    have hnone := List.find?_eq_none.1 (Option.map_eq_none_iff.1 hfirst) _ h
    simp at hnone

/-- Repeated captures agree if no two captures of one placeholder have different texts. -/
theorem repeatsAgree_iff {captures : List Capture} :
    repeatsAgree captures = true ↔
      ∀ placeholder value other, (placeholder, value) ∈ captures →
        (placeholder, other) ∈ captures → value = other := by
  simp only [repeatsAgree, List.all_eq_true, decide_eq_true_eq, Prod.forall]
  constructor
  · intro h placeholder value other hvalue hother
    exact Option.some.inj ((h placeholder value hvalue).symm.trans (h placeholder other hother))
  · intro h placeholder value hvalue
    obtain ⟨first, hfirst⟩ := exists_firstCapture? hvalue
    rw [hfirst, h placeholder first value (firstCapture?_eq_some hfirst) hvalue]

/-- A month name agrees if it is missing, or if it is the name of a month, and of the captured one
where a month was captured. -/
theorem monthAgrees_iff (cases : LowerCase) {captures : List Capture} {record : EventRecord} :
    monthAgrees captures record = true ↔
      record.monthName = [] ∨ ∃ number : Nat, Month.IsName cases record.monthName number ∧
        ((∃ value, (.month, value) ∈ captures) → record.month = number) := by
  have hcaptured : (captures.any fun capture => capture.1 = .month) = true ↔
      ∃ value, (Placeholder.month, value) ∈ captures := by
    simp
  unfold monthAgrees
  split
  · rename_i hempty
    exact ⟨fun _ => .inl (List.isEmpty_iff.1 hempty), fun _ => rfl⟩
  · rename_i hname
    have hne : record.monthName ≠ [] := by simpa using hname
    simp only [hne, false_or, ← Month.number?_eq_some_iff cases, ← hcaptured]
    cases hnumber : Month.number? record.monthName with
    | none => simp
    | some number =>
      by_cases hany : (captures.any fun capture => capture.1 = .month) = true <;> simp [hany]

/-- Captures that can be decoded give every field from the last capture of its placeholder, whatever
the captures of other placeholders are. The record is consistent exactly if all captures of one
placeholder have the same text and the last month name, unless it is missing or empty, is the full
name of a month in some letter case, and that of the month in the record if any month was captured,
be it as the empty text. -/
theorem decode_says_last_captures (cases : LowerCase) {mode : NumberMode}
    {captures : List Capture} {record : EventRecord} (h : decode mode captures = .ok record) :
    FieldsOf mode captures record ∧
      (record.consistent = true ↔
        (∀ placeholder value other, (placeholder, value) ∈ captures →
          (placeholder, other) ∈ captures → value = other) ∧
        ∀ name, lastCapture? .monthName captures = some name →
          name = [] ∨ ∃ number : Nat, Month.IsName cases name number ∧
            ((∃ value, (.month, value) ∈ captures) → record.month = number)) := by
  obtain ⟨stored, hstored, rfl⟩ := map_eq_ok_iff.1 h
  have hfields := EventRecord.fieldsOf_storeAll hstored
  refine ⟨⟨fun placeholder hnumeric => ?_, hfields.monthName, hfields.performers, hfields.venue,
    hfields.promoters⟩, ?_⟩
  · -- The consistency of a record is not one of its numbers.
    have hnumber := hfields.number placeholder hnumeric
    cases placeholder <;> exact hnumber
  · rw [Bool.and_eq_true, repeatsAgree_iff, monthAgrees_iff cases]
    refine and_congr_right fun _ => ?_
    rw [hfields.monthName]
    cases lastCapture? .monthName captures <;> simp

/-- A month name in capitals contradicts a month that was captured as the empty text. -/
theorem decode_says_last_captures_of_empty_month :
    let captures : List Capture :=
      [(.year, "2024".toList), (.monthName, "MARCH".toList), (.month, []), (.year, "2024".toList)]
    let record : EventRecord := { year := 2024, monthName := "MARCH".toList, consistent := false }
    decode .lenient captures = .ok record ∧ FieldsOf .lenient captures record ∧
      Month.IsName .fewest record.monthName 3 ∧
      ¬ ∃ number : Nat, Month.IsName .fewest record.monthName number ∧
        ((∃ value, (.month, value) ∈ captures) → record.month = number) := by
  intro captures record
  have hdecode : decode .lenient captures = .ok record := by decide +kernel
  obtain ⟨hfields, hconsistent⟩ := decode_says_last_captures .fewest hdecode
  refine ⟨hdecode, hfields, (Month.number?_eq_some_iff .fewest).1 (by decide +kernel), ?_⟩
  intro hagrees
  have hrepeats : repeatsAgree captures = true := by decide +kernel
  have hlast : lastCapture? .monthName captures = some record.monthName := by decide +kernel
  refine Bool.false_ne_true (hconsistent.2 ⟨repeatsAgree_iff.1 hrepeats, fun name hname => ?_⟩)
  obtain rfl := Option.some.inj (hlast.symm.trans hname)
  exact .inr hagrees

end EventFinder
