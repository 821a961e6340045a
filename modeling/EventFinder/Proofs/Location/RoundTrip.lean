import EventFinder.Proofs.Location.FieldTexts
import EventFinder.Proofs.Location.Reading

/-!
# Records of written locations

A location that was written from an event is read back as the record of that event
(`Pattern.read_location`). The matcher finds the texts that were written, because the written
location is a full reading of itself once its texts keep the boundaries; the decoder reads every
text as the field that it was written from; and texts of one event never contradict each other.
-/

set_option autoImplicit false

namespace EventFinder

namespace Event

variable {event : Event}

/-- An event whose fields can be written and read back: numbers of 64 bits, names without blanks
around them and without commas, and a venue without blanks around it. -/
structure Writable (event : Event) : Prop where
  year_fits : fits64 event.year = true
  month_fits : fits64 event.month = true
  day_fits : fits64 event.day = true
  performers_listable : Listable event.performers
  promoters_listable : Listable event.promoters
  venue_trim : Text.trim event.venue = event.venue

/-- No number of the event has a sign. -/
structure Unsigned (event : Event) : Prop where
  year_nonneg : 0 ≤ event.year
  month_nonneg : 0 ≤ event.month
  day_nonneg : 0 ≤ event.day

/-! ## The filled pattern of an event -/

/-- A token with the text that it becomes for the event. -/
def fillToken (event : Event) : Token → FilledToken
  | .literal text => .literal text
  | .field placeholder => .field placeholder (event.fieldText placeholder)

/-- The captures that an event is written as. -/
def captures (event : Event) (pattern : Pattern) : List Capture :=
  pattern.placeholders.map fun placeholder => (placeholder, event.fieldText placeholder)

/-- An event fills the tokens of a pattern and changes none of them. -/
theorem map_token_fillToken (event : Event) (tokens : List Token) :
    (tokens.map event.fillToken).map FilledToken.token = tokens := by
  rw [List.map_map]
  refine (List.map_congr_left fun token _ => ?_).trans (List.map_id tokens)
  cases token <;> rfl

/-- The text of a pattern that is filled with an event is the location of the event. -/
theorem filledText_fillToken (event : Event) (pattern : Pattern) :
    filledText (pattern.tokens.map event.fillToken) = event.location pattern := by
  rw [filledText, List.flatMap_map, location]
  congr 1
  funext token
  cases token <;> rfl

/-- The captures of a pattern that is filled with an event are those of the event. -/
theorem filterMap_capture?_fillToken (event : Event) (pattern : Pattern) :
    (pattern.tokens.map event.fillToken).filterMap FilledToken.capture? =
      event.captures pattern := by
  rw [List.filterMap_map, captures, Pattern.placeholders, List.map_filterMap]
  congr 1
  funext token
  cases token <;> rfl

/-- A written location that keeps the boundaries is a full reading of the written texts. -/
theorem fullReading_location {pattern : Pattern}
    (hkeeps : KeepsBoundaries (pattern.tokens.map event.fillToken) []) :
    FullReading pattern.tokens (event.location pattern) (event.captures pattern) :=
  ⟨pattern.tokens.map event.fillToken, event.map_token_fillToken pattern.tokens,
    event.filterMap_capture?_fillToken pattern, (event.filledText_fillToken pattern).symm, hkeeps⟩

/-! ## Decoding the written texts -/

/-- A text that was written for a field is stored as the field, strictly only if no number has a
sign. -/
theorem store_fieldText {mode : NumberMode} (hwritable : event.Writable)
    (hmode : mode = .strict → event.Unsigned) (record : EventRecord) (placeholder : Placeholder) :
    record.store mode (placeholder, event.fieldText placeholder) =
      .ok (event.fill record placeholder) := by
  cases placeholder with
  | year =>
    simp [EventRecord.store, fieldText, fill,
      decodeNumber_zeroPadded hwritable.year_fits fun h => (hmode h).year_nonneg]
  | month =>
    simp [EventRecord.store, fieldText, fill,
      decodeNumber_zeroPadded hwritable.month_fits fun h => (hmode h).month_nonneg]
  | day =>
    simp [EventRecord.store, fieldText, fill,
      decodeNumber_zeroPadded hwritable.day_fits fun h => (hmode h).day_nonneg]
  | monthName => rfl
  | performers =>
    simp [EventRecord.store, fieldText, fill, decodeList_joined hwritable.performers_listable]
  | venue => simp [EventRecord.store, fieldText, fill, hwritable.venue_trim]
  | promoters =>
    simp [EventRecord.store, fieldText, fill, decodeList_joined hwritable.promoters_listable]

/-- All written texts together fill the record. -/
theorem storeAll_fieldTexts {mode : NumberMode} (hwritable : event.Writable)
    (hmode : mode = .strict → event.Unsigned) (record : EventRecord)
    (placeholders : List Placeholder) :
    EventRecord.storeAll mode record
        (placeholders.map fun placeholder => (placeholder, event.fieldText placeholder)) =
      .ok (placeholders.foldl event.fill record) := by
  induction placeholders generalizing record with
  | nil => rfl
  | cons placeholder placeholders ih =>
    simp only [List.map_cons, EventRecord.storeAll, store_fieldText hwritable hmode, ih,
      List.foldl_cons]

/-! ## Consistency -/

/-- Fields that are filled from an event say nothing about consistency. -/
theorem consistent_foldl_fill (event : Event) (record : EventRecord)
    (placeholders : List Placeholder) :
    (placeholders.foldl event.fill record).consistent = record.consistent := by
  induction placeholders generalizing record with
  | nil => rfl
  | cons placeholder placeholders ih =>
    rw [List.foldl_cons, ih]
    cases placeholder <;> rfl

/-- The month name of a filled record is that of the event if the pattern names it. -/
theorem monthName_foldl_fill (event : Event) (record : EventRecord)
    (placeholders : List Placeholder) :
    (placeholders.foldl event.fill record).monthName =
      if .monthName ∈ placeholders then event.fieldText .monthName else record.monthName := by
  induction placeholders generalizing record with
  | nil => rfl
  | cons placeholder placeholders ih =>
    rw [List.foldl_cons, ih]
    cases placeholder <;> simp [fill]

/-- The month is that of the event if it is among the fields that are filled. -/
theorem month_foldl_fill (event : Event) (record : EventRecord) (placeholders : List Placeholder) :
    (placeholders.foldl event.fill record).month =
      if .month ∈ placeholders then event.month else record.month := by
  induction placeholders generalizing record with
  | nil => rfl
  | cons placeholder placeholders ih =>
    rw [List.foldl_cons, ih]
    cases placeholder <;> simp [fill]

/-- Repeated placeholders are written as the same text. -/
theorem repeatsAgree_captures (event : Event) (pattern : Pattern) :
    repeatsAgree (event.captures pattern) = true := by
  have hfirst : ∀ placeholders : List Placeholder, ∀ p ∈ placeholders,
      firstCapture? p (placeholders.map fun q => (q, event.fieldText q)) =
        some (event.fieldText p) := by
    intro placeholders p hp
    induction placeholders with
    | nil => cases hp
    | cons q placeholders ih =>
      by_cases hq : q = p
      · simp [firstCapture?, hq]
      · have := ih (by simpa [Ne.symm hq] using hp)
        simpa [firstCapture?, hq] using this
  simp only [repeatsAgree, captures, List.all_map, List.all_eq_true]
  exact fun p hp => decide_eq_true (hfirst _ p hp)

/-- The month name of an event is the name of its month. -/
theorem monthAgrees_captures (event : Event) (pattern : Pattern) :
    monthAgrees (event.captures pattern) (event.expected pattern) = true := by
  have hname : (event.expected pattern).monthName =
      if .monthName ∈ pattern.placeholders then event.fieldText .monthName else [] :=
    monthName_foldl_fill event {} pattern.placeholders
  have hmonth : (event.expected pattern).month =
      if .month ∈ pattern.placeholders then event.month else 0 :=
    month_foldl_fill event {} pattern.placeholders
  rw [monthAgrees]
  split
  · rfl
  · rename_i hne
    have hnamed : Placeholder.monthName ∈ pattern.placeholders := by
      by_contra h
      simp [hname, h] at hne
    rw [if_pos hnamed] at hname
    cases htext : Month.name? event.month with
    | none => simp [hname, fieldText, htext] at hne
    | some name =>
      obtain ⟨number, hnumber, hcast⟩ := Month.number?_of_name? htext
      have hrecord : Month.number? (event.expected pattern).monthName = some number := by
        rw [hname, fieldText, htext]
        exact hnumber
      rw [hrecord]
      by_cases hcaptured : Placeholder.month ∈ pattern.placeholders
      · simp [hmonth, hcaptured, hcast]
      · have hnone : (event.captures pattern).any (fun capture => capture.1 = .month) = false := by
          simp only [captures, List.any_map, List.any_eq_false]
          intro p hp
          simpa using fun heq : p = .month => hcaptured (heq ▸ hp)
        simp [hnone]

/-- The record that is expected of an event is consistent. -/
theorem consistent_expected (event : Event) (pattern : Pattern) :
    (event.expected pattern).consistent = true :=
  event.consistent_foldl_fill {} pattern.placeholders

/-! ## Reading a written location -/

/-- A written location that keeps the boundaries is read as the record of its event. -/
theorem read_of_keepsBoundaries {source : Text} {pattern : Pattern}
    (h : Pattern.compile source = .ok pattern) {mode : NumberMode} (hwritable : event.Writable)
    (hmode : mode = .strict → event.Unsigned)
    (hkeeps : KeepsBoundaries (pattern.tokens.map event.fillToken) []) :
    pattern.read mode (event.location pattern) = .ok (event.expected pattern) := by
  have hcapture : capture pattern.tokens (event.location pattern) =
      .ok (event.captures pattern) :=
    (fullReading_location hkeeps).capture_eq_ok (Pattern.compile_eq_ok h).2.2.1
  have hstored : EventRecord.storeAll mode {} (event.captures pattern) =
      .ok (event.expected pattern) :=
    storeAll_fieldTexts hwritable hmode {} pattern.placeholders
  rw [Pattern.read, hcapture]
  simp only [decode, hstored, map_ok, event.repeatsAgree_captures, event.monthAgrees_captures,
    Bool.and_self]
  rw [← event.consistent_expected pattern]

end Event

/-- A location that was written from an event by a compiled pattern, and whose texts keep the
boundaries, is read as the record of the event, which is consistent. The same holds in the strict
reading of numbers if none of them has a sign. -/
theorem Pattern.read_location {source : Text} {pattern : Pattern}
    (h : Pattern.compile source = .ok pattern) {event : Event} (hwritable : event.Writable)
    (hkeeps : KeepsBoundaries (pattern.tokens.map event.fillToken) []) :
    pattern.read .lenient (event.location pattern) = .ok (event.expected pattern) ∧
      (event.expected pattern).consistent = true ∧
      (event.Unsigned →
        pattern.read .strict (event.location pattern) = .ok (event.expected pattern)) := by
  refine ⟨?_, event.consistent_expected pattern, fun hunsigned => ?_⟩
  · exact event.read_of_keepsBoundaries h hwritable nofun hkeeps
  · exact event.read_of_keepsBoundaries h hwritable (fun _ => hunsigned) hkeeps

/-- A location with a year before the first one, two performers and a slash is read back. -/
theorem Pattern.read_location_of_two_performers :
    let event : Event := ⟨-44, 3, 15, ["A".toList, "The B".toList], "Hall".toList, []⟩
    let pattern : Pattern := ⟨"%y.%m/%P (%V)".toList, [.field .year, .literal ".".toList,
      .field .month, .literal "/".toList, .field .performers, .literal " (".toList, .field .venue,
      .literal ")".toList]⟩
    Pattern.compile pattern.source = .ok pattern ∧ event.Writable ∧
      KeepsBoundaries (pattern.tokens.map event.fillToken) [] ∧
      pattern.read .lenient (event.location pattern) = .ok (event.expected pattern) := by
  intro event pattern
  have hcompile : Pattern.compile pattern.source = .ok pattern := by decide +kernel
  have hperformers : Listable event.performers :=
    ⟨by decide +kernel, by decide +kernel, by decide +kernel⟩
  have hpromoters : Listable event.promoters :=
    ⟨by decide, by decide, by decide⟩
  have hwritable : event.Writable :=
    ⟨by decide, by decide, by decide, hperformers, hpromoters, by decide +kernel⟩
  have hkeeps : KeepsBoundaries (pattern.tokens.map event.fillToken) [] := by decide +kernel
  exact ⟨hcompile, hwritable, hkeeps, (Pattern.read_location hcompile hwritable hkeeps).1⟩

end EventFinder
