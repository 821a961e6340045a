import EventFinder.Location.Record
import EventFinder.Proofs.Result
import EventFinder.Proofs.Text.Numerals

/-!
# Reading numbers leniently and strictly

Both ways to read the number fields of a location agree on its captures, and they give the same
record unless a number is refused strictly. A capture is refused if it is not empty and no run of
digits that fits in 64 bits (`IsRefused`). The first refused capture, in the order of the pattern,
decides the error, even if a later capture of the same placeholder would take its place
(`decode_strict_eq_error_iff`). Read leniently, a number field is what its last capture denotes, or
zero (`lenientValue_of_decode`).

The main statement is `Pattern.strict_refines_lenient`.
-/

set_option autoImplicit false

namespace EventFinder

/-- A capture that strict reading refuses: its field is a number, and its text is neither empty nor
a run of digits for a number that fits in 64 bits. -/
def IsRefused (capture : Capture) : Prop :=
  capture.1.isNumeric = true ∧ capture.2 ≠ [] ∧
    ¬ ∃ n, Text.DigitRun capture.2 n ∧ (n : Int) ≤ Int64.maxValue.toInt

/-- The first of the captures that strict reading refuses. -/
def IsFirstRefused (captures : List Capture) (capture : Capture) : Prop :=
  ∃ before after, captures = before ++ capture :: after ∧ IsRefused capture ∧
    ∀ earlier ∈ before, ¬ IsRefused earlier

/-- The number that a text stands for leniently: the one that it denotes, if that fits in 64 bits,
and zero for any other text. -/
def LenientValue (value : Text) (i : Int) : Prop :=
  (Text.Numeral value i ∧ Int64.minValue.toInt ≤ i ∧ i ≤ Int64.maxValue.toInt) ∨
    ((¬ ∃ j, Text.Numeral value j ∧ Int64.minValue.toInt ≤ j ∧ j ≤ Int64.maxValue.toInt) ∧
      i = 0)

/-- The text of the last capture of a placeholder. -/
def lastCapture? (placeholder : Placeholder) (captures : List Capture) : Option Text :=
  (captures.reverse.find? fun capture => capture.1 = placeholder).map Prod.snd

/-- The number in a field of a record, zero for the fields that are no numbers. -/
def EventRecord.number (record : EventRecord) : Placeholder → Int
  | .year => record.year
  | .month => record.month
  | .day => record.day
  | _ => 0

/-- Without captures no placeholder has a last one. -/
@[simp] theorem lastCapture?_nil (placeholder : Placeholder) : lastCapture? placeholder [] = none :=
  rfl

/-- The first capture is the last one of its placeholder if no later capture is. -/
theorem lastCapture?_cons (placeholder : Placeholder) (capture : Capture) (rest : List Capture) :
    lastCapture? placeholder (capture :: rest) =
      (lastCapture? placeholder rest).or
        (if capture.1 = placeholder then some capture.2 else none) := by
  rw [lastCapture?, List.reverse_cons, List.find?_append, Option.map_or, List.find?_singleton]
  by_cases h : capture.1 = placeholder <;> simp [lastCapture?, h]

/-- Among captures one of which is refused, one is refused first. -/
theorem exists_isFirstRefused {captures : List Capture}
    (h : ∃ capture ∈ captures, IsRefused capture) : ∃ capture, IsFirstRefused captures capture := by
  classical
  obtain ⟨refused, hmem, hrefused⟩ := h
  cases hfound : captures.find? fun capture => decide (IsRefused capture) with
  | none =>
    have hnone := List.find?_eq_none.1 hfound refused hmem
    exact absurd (decide_eq_true hrefused) hnone
  | some capture =>
    obtain ⟨hfirst, before, after, hcaptures, hbefore⟩ := List.find?_eq_some_iff_append.1 hfound
    exact ⟨capture, before, after, hcaptures, of_decide_eq_true hfirst, by simpa using hbefore⟩

/-! ## One number -/

/-- Lenient reading never fails, and gives the number that the text stands for. -/
theorem decodeNumber_lenient (placeholder : Placeholder) (value : Text) :
    ∃ i, decodeNumber .lenient placeholder value = .ok i ∧ LenientValue value i := by
  by_cases hempty : value = []
  · subst hempty
    have hnone : ¬ ∃ j, Text.Numeral [] j ∧
        Int64.minValue.toInt ≤ j ∧ j ≤ Int64.maxValue.toInt := by
      simp only [← Text.int64?_eq_some_iff]
      rintro ⟨j, hj⟩
      cases hj
    exact ⟨0, rfl, .inr ⟨hnone, rfl⟩⟩
  · refine ⟨(Text.int64? value).getD 0, by simp [decodeNumber, hempty], ?_⟩
    simp only [LenientValue, ← Text.int64?_eq_some_iff]
    cases hvalue : Text.int64? value with
    | none => simp
    | some i => simp

/-- A strict decoder reports what it refuses, with the placeholder and its text. -/
theorem decodeNumber_strict_of_isRefused {placeholder : Placeholder} {value : Text}
    (h : IsRefused (placeholder, value)) :
    decodeNumber .strict placeholder value = .error (.invalidNumber placeholder value) := by
  obtain ⟨-, hne, hrun⟩ := h
  have hempty : value.isEmpty = false := by simpa using hne
  cases hdigits : Text.digits? value with
  | none => simp [decodeNumber, hempty, hdigits]
  | some n =>
    have hfits : fits64 n = false := by
      by_contra hfits
      have hbounds := fits64_iff.1 (Bool.not_eq_false _ ▸ hfits)
      exact hrun ⟨n, Text.digits?_eq_some_iff.1 hdigits, hbounds.2⟩
    simp [decodeNumber, hempty, hdigits, hfits, Option.filter]

/-- What strict reading does not refuse, it reads as lenient reading does. -/
theorem decodeNumber_strict_of_not_isRefused {placeholder : Placeholder} {value : Text}
    (hnumeric : placeholder.isNumeric = true) (h : ¬ IsRefused (placeholder, value)) :
    decodeNumber .strict placeholder value = decodeNumber .lenient placeholder value := by
  by_cases hempty : value = []
  · subst hempty
    rfl
  obtain ⟨n, hrun, hle⟩ : ∃ n, Text.DigitRun value n ∧ (n : Int) ≤ Int64.maxValue.toInt := by
    by_contra hrun
    exact h ⟨hnumeric, hempty, hrun⟩
  have hbounds : Int64.minValue.toInt ≤ (n : Int) ∧ (n : Int) ≤ Int64.maxValue.toInt :=
    ⟨Int.le_trans (by decide) (Int.natCast_nonneg n), hle⟩
  have hdigits : Text.digits? value = some n := Text.digits?_eq_some_iff.2 hrun
  have hlenient : Text.int64? value = some (n : Int) :=
    Text.int64?_eq_some_iff.2 ⟨.unsigned hrun, hbounds⟩
  simp [decodeNumber, hempty, hdigits, fits64_iff.2 hbounds, Option.filter, hlenient]

/-! ## Storing captures -/

namespace EventRecord

/-- A lenient decoder stores every capture. -/
theorem store_lenient (record : EventRecord) (capture : Capture) :
    ∃ stored, record.store .lenient capture = .ok stored := by
  obtain ⟨placeholder, value⟩ := capture
  obtain ⟨i, hi, -⟩ := decodeNumber_lenient placeholder value
  cases placeholder <;> simp [store, hi]

/-- A refused capture is not stored, and is reported as it stands. -/
theorem store_strict_of_isRefused (record : EventRecord) {capture : Capture}
    (h : IsRefused capture) :
    record.store .strict capture = .error (.invalidNumber capture.1 capture.2) := by
  obtain ⟨placeholder, value⟩ := capture
  have hnumber := decodeNumber_strict_of_isRefused h
  cases placeholder with
  | year | month | day => simp [store, hnumber, Except.map]
  | _ => exact absurd h.1 Bool.false_ne_true

/-- What is not refused is stored alike in both modes. -/
theorem store_strict_of_not_isRefused (record : EventRecord) {capture : Capture}
    (h : ¬ IsRefused capture) : record.store .strict capture = record.store .lenient capture := by
  obtain ⟨placeholder, value⟩ := capture
  cases placeholder with
  | year | month | day => simp [store, decodeNumber_strict_of_not_isRefused rfl h]
  | _ => rfl

/-- A lenient decoder stores any captures. -/
theorem storeAll_lenient (record : EventRecord) (captures : List Capture) :
    ∃ stored, storeAll .lenient record captures = .ok stored := by
  induction captures generalizing record with
  | nil => exact ⟨record, rfl⟩
  | cons capture rest ih =>
    obtain ⟨stored, hstored⟩ := store_lenient record capture
    simpa [storeAll, hstored] using ih stored

/-- Captures of which none is refused are stored alike in both modes. -/
theorem storeAll_strict_of_not_isRefused (record : EventRecord) {captures : List Capture}
    (h : ∀ capture ∈ captures, ¬ IsRefused capture) :
    storeAll .strict record captures = storeAll .lenient record captures := by
  induction captures generalizing record with
  | nil => rfl
  | cons capture rest ih =>
    obtain ⟨hcapture, hrest⟩ := List.forall_mem_cons.1 h
    obtain ⟨stored, hstored⟩ := store_lenient record capture
    simp only [storeAll, store_strict_of_not_isRefused record hcapture, hstored, ih stored hrest]

/-- The first refused capture is the one that is reported, whatever follows it. -/
theorem storeAll_strict_of_isFirstRefused (record : EventRecord) {captures : List Capture}
    {capture : Capture} (h : IsFirstRefused captures capture) :
    storeAll .strict record captures = .error (.invalidNumber capture.1 capture.2) := by
  obtain ⟨before, after, rfl, hrefused, hbefore⟩ := h
  -- What stands in front is stored as in lenient reading, which cannot fail on the way.
  induction before generalizing record with
  | nil => simp only [List.nil_append, storeAll, store_strict_of_isRefused record hrefused]
  | cons earlier before ih =>
    obtain ⟨hearlier, hrest⟩ := List.forall_mem_cons.1 hbefore
    obtain ⟨stored, hstored⟩ := store_lenient record earlier
    simp only [List.cons_append, storeAll, store_strict_of_not_isRefused record hearlier, hstored,
      ih stored hrest]

/-! ## The numbers of a record -/

/-- A capture of a number sets the number of its placeholder. -/
theorem number_store_self {mode : NumberMode} {record stored : EventRecord}
    {placeholder : Placeholder} {value : Text}
    (hstored : record.store mode (placeholder, value) = .ok stored)
    (hnumeric : placeholder.isNumeric = true) :
    decodeNumber mode placeholder value = .ok (stored.number placeholder) := by
  cases placeholder with
  | year | month | day =>
    obtain ⟨n, hn, rfl⟩ := map_eq_ok_iff.1 hstored
    exact hn
  | _ => exact absurd hnumeric Bool.false_ne_true

/-- A capture leaves the numbers of the other placeholders as they were. -/
theorem number_store_of_ne {mode : NumberMode} {record stored : EventRecord}
    {own placeholder : Placeholder} {value : Text} (hne : own ≠ placeholder)
    (hstored : record.store mode (own, value) = .ok stored) :
    stored.number placeholder = record.number placeholder := by
  cases own with
  | year | month | day =>
    obtain ⟨n, -, rfl⟩ := map_eq_ok_iff.1 hstored
    cases placeholder <;> first | rfl | exact absurd rfl hne
  | _ =>
    cases hstored
    cases placeholder <;> rfl

/-- A part of a record is what storing the last capture of its placeholder makes it, and stays as it
was without one, if storing the captures of all other placeholders leaves it alone. -/
theorem part_storeAll {α : Type} (part : EventRecord → α) (means : Text → α → Prop)
    {mode : NumberMode} {own : Placeholder}
    (hown : ∀ (record stored : EventRecord) (value : Text),
      record.store mode (own, value) = .ok stored → means value (part stored))
    (hother : ∀ (record stored : EventRecord) (placeholder : Placeholder) (value : Text),
      placeholder ≠ own → record.store mode (placeholder, value) = .ok stored →
        part stored = part record)
    {record stored : EventRecord} {captures : List Capture}
    (hstored : storeAll mode record captures = .ok stored) :
    match lastCapture? own captures with
    | some value => means value (part stored)
    | none => part stored = part record := by
  induction captures generalizing record with
  | nil =>
    cases hstored
    rfl
  | cons capture rest ih =>
    -- The rest is stored over a record that the first capture has changed already. That change
    -- counts only where the rest has no capture of the placeholder.
    obtain ⟨placeholder, value⟩ := capture
    cases hfirst : record.store mode (placeholder, value) with
    | error e => simp [storeAll, hfirst] at hstored
    | ok next =>
      rw [storeAll, hfirst] at hstored
      have hrest := ih hstored
      rw [lastCapture?_cons]
      cases hlast : lastCapture? own rest with
      | some later => simpa [hlast] using hrest
      | none =>
        simp only [hlast] at hrest
        by_cases hplaceholder : placeholder = own
        · subst hplaceholder
          simpa [hrest] using hown record next value hfirst
        · simpa [hplaceholder, hrest] using hother record next placeholder value hplaceholder hfirst

/-- A number field is read from the last capture of its placeholder, and stays as it was without
one. -/
theorem number_storeAll {mode : NumberMode} {record stored : EventRecord} {captures : List Capture}
    {placeholder : Placeholder} (hnumeric : placeholder.isNumeric = true)
    (hstored : storeAll mode record captures = .ok stored) :
    match lastCapture? placeholder captures with
    | some value => decodeNumber mode placeholder value = .ok (stored.number placeholder)
    | none => stored.number placeholder = record.number placeholder :=
  part_storeAll (fun record => record.number placeholder)
    (fun value i => decodeNumber mode placeholder value = .ok i)
    (fun _ _ _ hfirst => number_store_self hfirst hnumeric)
    (fun _ _ _ _ hne hfirst => number_store_of_ne hne hfirst) hstored

end EventRecord

/-! ## Decoding captures -/

/-- The consistency of a record is not one of its numbers. -/
theorem number_of_decode {mode : NumberMode} {captures : List Capture} {record : EventRecord}
    (h : decode mode captures = .ok record) :
    ∃ stored, EventRecord.storeAll mode {} captures = .ok stored ∧
      record.number = stored.number := by
  obtain ⟨stored, hstored, rfl⟩ := map_eq_ok_iff.1 h
  refine ⟨stored, hstored, ?_⟩
  funext placeholder
  cases placeholder <;> rfl

/-- A lenient decoder makes a record of any captures. -/
theorem decode_lenient (captures : List Capture) :
    ∃ record, decode .lenient captures = .ok record := by
  obtain ⟨stored, hstored⟩ := EventRecord.storeAll_lenient {} captures
  simp [decode, hstored]

/-- A strict decoder reports the first capture that it refuses. -/
theorem decode_strict_of_isFirstRefused {captures : List Capture} {capture : Capture}
    (h : IsFirstRefused captures capture) :
    decode .strict captures = .error (.invalidNumber capture.1 capture.2) := by
  rw [decode, EventRecord.storeAll_strict_of_isFirstRefused {} h]
  rfl

/-- If no capture is refused, both modes decode the same. -/
theorem decode_strict_of_not_isRefused {captures : List Capture}
    (h : ∀ capture ∈ captures, ¬ IsRefused capture) :
    decode .strict captures = decode .lenient captures := by
  rw [decode, EventRecord.storeAll_strict_of_not_isRefused {} h, decode]

/-- Strict decoding fails exactly where a capture is refused, and names the first one. -/
theorem decode_strict_eq_error_iff {captures : List Capture} {error : MatchError} :
    decode .strict captures = .error error ↔
      ∃ placeholder value, IsFirstRefused captures (placeholder, value) ∧
        error = .invalidNumber placeholder value := by
  constructor
  · intro h
    by_cases hrefused : ∃ capture ∈ captures, IsRefused capture
    · obtain ⟨⟨placeholder, value⟩, hfirst⟩ := exists_isFirstRefused hrefused
      rw [decode_strict_of_isFirstRefused hfirst] at h
      exact ⟨placeholder, value, hfirst, (Except.error.inj h).symm⟩
    · -- Without a refused capture both ways of reading agree, and one of them never fails.
      push Not at hrefused
      obtain ⟨record, hrecord⟩ := decode_lenient captures
      rw [decode_strict_of_not_isRefused hrefused, hrecord] at h
      cases h
  · rintro ⟨placeholder, value, hfirst, rfl⟩
    exact decode_strict_of_isFirstRefused hfirst

/-- A number that lenient decoding gives is what the last capture of its field stands for. -/
theorem lenientValue_of_decode {captures : List Capture} {record : EventRecord}
    (h : decode .lenient captures = .ok record) {placeholder : Placeholder}
    (hnumeric : placeholder.isNumeric = true) :
    match lastCapture? placeholder captures with
    | some value => LenientValue value (record.number placeholder)
    | none => record.number placeholder = 0 := by
  obtain ⟨stored, hstored, hnumber⟩ := number_of_decode h
  have hlast := EventRecord.number_storeAll hnumeric hstored
  rw [hnumber]
  cases hvalue : lastCapture? placeholder captures with
  | none =>
    simp only [hvalue] at hlast
    rw [hlast]
    cases placeholder <;> rfl
  | some value =>
    simp only [hvalue] at hlast
    obtain ⟨i, hi, hlenient⟩ := decodeNumber_lenient placeholder value
    rw [hi] at hlast
    rw [← Except.ok.inj hlast]
    exact hlenient

/-- A location that does not fit is not refused for a number. -/
theorem capture_ne_invalidNumber {tokens : List Token} {location : Text} {error : MatchError}
    (h : capture tokens location = .error error) (placeholder : Placeholder) (value : Text) :
    error ≠ .invalidNumber placeholder value := by
  induction tokens generalizing location with
  | nil =>
    cases location with
    | nil => cases h
    | cons => cases h; simp
  | cons token tail ih =>
    cases token with
    | literal literal =>
      simp only [capture] at h
      split at h
      · exact ih h
      · split at h
        · cases h
        · cases h; simp
    | field own =>
      simp only [capture] at h
      split at h
      · exact ih (map_eq_error_iff.1 h)
      · split at h
        · exact ih (map_eq_error_iff.1 h)
        · split at h
          · exact ih (map_eq_error_iff.1 h)
          · cases h; simp

namespace Pattern

/-- Strict reading refines lenient reading. What it reads, it reads as the same record. Where
lenient reading fails, the location does not fit and no number is to blame, so that both fail alike.
Where only strict reading fails, a number is to blame: the first refused capture, which is one that
is neither empty nor a run of digits for a number in 64 bits. Lenient reading takes for a number
what its last capture denotes, and zero where that is none or does not fit. -/
theorem strict_refines_lenient (pattern : Pattern) (location : Text) :
    (∀ record, pattern.read .strict location = .ok record →
      pattern.read .lenient location = .ok record) ∧
    (∀ error, pattern.read .lenient location = .error error →
      pattern.read .strict location = .error error ∧
        ∀ placeholder value, error ≠ .invalidNumber placeholder value) ∧
    ∀ record, pattern.read .lenient location = .ok record →
      ∃ captures, capture pattern.tokens location = .ok captures ∧
        (∀ error, pattern.read .strict location = .error error ↔
          ∃ placeholder value, IsFirstRefused captures (placeholder, value) ∧
            error = .invalidNumber placeholder value) ∧
        ∀ placeholder : Placeholder, placeholder.isNumeric = true →
          match lastCapture? placeholder captures with
          | some value => LenientValue value (record.number placeholder)
          | none => record.number placeholder = 0 := by
  cases hcapture : capture pattern.tokens location with
  | error e =>
    have hread : ∀ mode, pattern.read mode location = .error e := fun mode => by rw [read, hcapture]
    simp only [hread]
    refine ⟨nofun, fun error h => ⟨h, ?_⟩, nofun⟩
    cases h
    exact capture_ne_invalidNumber hcapture
  | ok captures =>
    have hread : ∀ mode, pattern.read mode location = decode mode captures :=
      fun mode => by rw [read, hcapture]
    simp only [hread]
    refine ⟨fun record hstrict => ?_, fun error hlenient => ?_, fun record hlenient => ?_⟩
    · have hnone : ∀ capture ∈ captures, ¬ IsRefused capture := by
        intro capture hmem hrefused
        obtain ⟨first, hfirst⟩ := exists_isFirstRefused ⟨capture, hmem, hrefused⟩
        simp [decode_strict_of_isFirstRefused hfirst] at hstrict
      rwa [decode_strict_of_not_isRefused hnone] at hstrict
    · obtain ⟨record, hrecord⟩ := decode_lenient captures
      simp [hrecord] at hlenient
    · exact ⟨captures, rfl, fun error => decode_strict_eq_error_iff,
        fun placeholder hnumeric => lenientValue_of_decode hlenient hnumeric⟩

/-- A year that is refused although a later one takes its place, behind a month with more zeros than
a number in 64 bits has digits. -/
theorem strict_refines_lenient_of_repeated_year :
    let pattern : Pattern := ⟨"%m/%y/%y".toList,
      [.field .month, .literal ['/'], .field .year, .literal ['/'], .field .year]⟩
    let location := "0000000000000000000000007/+2023/2024".toList
    let record : EventRecord := { year := 2024, month := 7, consistent := false }
    Pattern.compile pattern.source = .ok pattern ∧
      pattern.read .lenient location = .ok record ∧
      pattern.read .strict location = .error (.invalidNumber .year "+2023".toList) ∧
      ∃ captures, capture pattern.tokens location = .ok captures ∧
        IsFirstRefused captures (.year, "+2023".toList) ∧
        LenientValue "2024".toList record.year := by
  intro pattern location record
  have hcompile : Pattern.compile pattern.source = .ok pattern := by decide +kernel
  have hlenient : pattern.read .lenient location = .ok record := by decide +kernel
  have hstrict : pattern.read .strict location = .error (.invalidNumber .year "+2023".toList) := by
    decide +kernel
  obtain ⟨captures, hcaptures, hfirst, hnumbers⟩ :=
    (strict_refines_lenient pattern location).2.2 record hlenient
  obtain ⟨placeholder, value, hrefused, herror⟩ := (hfirst _).1 hstrict
  cases herror
  have hread : capture pattern.tokens location = .ok [(.month, "0000000000000000000000007".toList),
      (.year, "+2023".toList), (.year, "2024".toList)] := by decide +kernel
  rw [hread] at hcaptures
  cases hcaptures
  exact ⟨hcompile, hlenient, hstrict, _, hread, hrefused, hnumbers .year rfl⟩

end Pattern

end EventFinder
