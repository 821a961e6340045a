import EventFinder.Proofs.Location.Meaning
import EventFinder.Proofs.Location.Reading
import EventFinder.Proofs.Pattern.Diagnosis

/-!
# The field that is left out

Where a location stops inside the literal in front of the last placeholder, the field of this
placeholder was left out. It is decoded like a field that is captured as the empty text: it is set
back to its default over what was captured in front (`decode_concat_nil`), and it contradicts what
was captured in front wherever an empty text does (`capturesAgree_concat_nil`). So leaving out the
only field of its kind does no harm, but a field that is written further in front is lost, and the
record is inconsistent (`Pattern.read_omitted_field`).
-/

set_option autoImplicit false

namespace EventFinder

/-- No two captures of one placeholder differ, and a month name that is not empty is the name of a
month, and that of the month wherever a month is captured. -/
structure CapturesAgree (captures : List Capture) : Prop where
  repeats : ∀ placeholder value other, (placeholder, value) ∈ captures →
    (placeholder, other) ∈ captures → value = other
  month : ∀ name, (.monthName, name) ∈ captures → name ≠ [] →
    ∃ number : Nat, Month.number? name = some number ∧
      ∀ value, (.month, value) ∈ captures → decodeNumber .lenient .month value = .ok number

/-- The last capture of a placeholder is one of the captures. -/
theorem mem_of_lastCapture? {placeholder : Placeholder} {captures : List Capture} {value : Text}
    (h : lastCapture? placeholder captures = some value) : (placeholder, value) ∈ captures :=
  List.mem_reverse.1 (firstCapture?_eq_some h)

namespace EventRecord

/-- The record with the field of a placeholder set back to its default. -/
def reset (record : EventRecord) : Placeholder → EventRecord
  | .year => { record with year := 0 }
  | .month => { record with month := 0 }
  | .day => { record with day := 0 }
  | .monthName => { record with monthName := [] }
  | .performers => { record with performers := [] }
  | .venue => { record with venue := [] }
  | .promoters => { record with promoters := [] }

/-- Consistency and the field of a placeholder are set apart from each other. -/
theorem reset_consistent (record : EventRecord) (consistent : Bool) (placeholder : Placeholder) :
    { record with consistent }.reset placeholder =
      { record.reset placeholder with consistent } := by
  cases placeholder <;> rfl

/-- An empty capture sets its field back. -/
theorem store_nil (mode : NumberMode) (record : EventRecord) (placeholder : Placeholder) :
    record.store mode (placeholder, []) = .ok (record.reset placeholder) := by
  cases placeholder <;> rfl

/-- A capture behind stored ones is stored into their record. -/
theorem storeAll_concat {mode : NumberMode} {record stored : EventRecord} {captures : List Capture}
    (h : storeAll mode record captures = .ok stored) (capture : Capture) :
    storeAll mode record (captures ++ [capture]) = stored.store mode capture := by
  induction captures generalizing record with
  | nil =>
    cases h
    simp only [List.nil_append, storeAll]
    cases stored.store mode capture <;> rfl
  | cons first captures ih =>
    simp only [List.cons_append, storeAll] at h ⊢
    split at h
    · rename_i next hnext
      exact ih h
    · cases h

/-- A field that was captured as the empty text only has its default already. -/
theorem reset_of_empty {mode : NumberMode} {stored : EventRecord} {captures : List Capture}
    {placeholder : Placeholder} (hstored : storeAll mode {} captures = .ok stored)
    (hempty : ∀ value, (placeholder, value) ∈ captures → value = []) :
    stored.reset placeholder = stored := by
  have hfields := fieldsOf_storeAll hstored
  have hlast : lastCapture? placeholder captures = none ∨
      lastCapture? placeholder captures = some [] := by
    cases h : lastCapture? placeholder captures with
    | none => exact .inl rfl
    | some value => rw [hempty value (mem_of_lastCapture? h)]; exact .inr rfl
  have hnumber : placeholder.isNumeric = true → stored.number placeholder = 0 := by
    intro hnumeric
    have h := hfields.number placeholder hnumeric
    obtain hnone | hsome := hlast
    · rwa [hnone] at h
    · rw [hsome] at h
      exact (Except.ok.inj h).symm
  -- Both without a capture and with an empty one, a text field is empty.
  have htext : ∀ {α : Type} {part : List α} {means : Text → List α}, means [] = [] →
      part = ((lastCapture? placeholder captures).map means).getD [] → part = [] := by
    rintro α part means hmeans rfl
    obtain h | h := hlast <;> simp [h, hmeans]
  obtain ⟨year, month, day, monthName, performers, venue, promoters, consistent⟩ := stored
  cases placeholder with
  | year | month | day =>
    cases hnumber rfl
    rfl
  | monthName => obtain h | h := hlast <;> simpa [h, reset] using hfields.monthName.symm
  | performers =>
    cases htext rfl hfields.performers
    rfl
  | venue =>
    cases htext rfl hfields.venue
    rfl
  | promoters =>
    cases htext rfl hfields.promoters
    rfl

end EventRecord

/-! ## Agreement -/

/-- If no placeholder has two different captures, its last capture is any of them. -/
theorem lastCapture?_eq_some_iff_mem {captures : List Capture}
    (hrepeats : ∀ placeholder value other, (placeholder, value) ∈ captures →
      (placeholder, other) ∈ captures → value = other)
    {placeholder : Placeholder} {value : Text} :
    lastCapture? placeholder captures = some value ↔ (placeholder, value) ∈ captures := by
  refine ⟨mem_of_lastCapture?, fun hvalue => ?_⟩
  obtain ⟨text, htext⟩ : ∃ text, lastCapture? placeholder captures = some text :=
    exists_firstCapture? (List.mem_reverse.2 hvalue)
  rw [htext, hrepeats placeholder text value (mem_of_lastCapture? htext) hvalue]

/-- A record is consistent exactly if its captures agree. -/
theorem consistent_iff_capturesAgree {captures : List Capture} {record : EventRecord}
    (h : decode .lenient captures = .ok record) :
    record.consistent = true ↔ CapturesAgree captures := by
  obtain ⟨stored, hstored, rfl⟩ := map_eq_ok_iff.1 h
  have hfields := EventRecord.fieldsOf_storeAll hstored
  rw [Bool.and_eq_true, repeatsAgree_iff, monthAgrees_iff .fewest]
  simp only [← Month.number?_eq_some_iff]
  -- Where no two captures of a placeholder differ, each of them is the last one.
  constructor
  · rintro ⟨hrepeats, hmonth⟩
    refine ⟨hrepeats, fun name hname hne => ?_⟩
    have hstoredName : stored.monthName = name := by
      rw [hfields.monthName, (lastCapture?_eq_some_iff_mem hrepeats).2 hname, Option.getD_some]
    rw [hstoredName] at hmonth
    obtain ⟨number, hnumber, hcaptured⟩ := hmonth.resolve_left hne
    refine ⟨number, hnumber, fun value hvalue => ?_⟩
    have hdecoded := hfields.number .month rfl
    rw [(lastCapture?_eq_some_iff_mem hrepeats).2 hvalue] at hdecoded
    rw [← hcaptured ⟨value, hvalue⟩]
    exact hdecoded
  · rintro ⟨hrepeats, hmonth⟩
    refine ⟨hrepeats, or_iff_not_imp_left.2 fun hne => ?_⟩
    cases hname : lastCapture? .monthName captures with
    | none => simp [hfields.monthName, hname] at hne
    | some name =>
      rw [hfields.monthName, hname, Option.getD_some] at hne ⊢
      obtain ⟨number, hnumber, hdecoded⟩ :=
        hmonth name ((lastCapture?_eq_some_iff_mem hrepeats).1 hname) hne
      refine ⟨number, hnumber, fun ⟨value, hvalue⟩ => ?_⟩
      have hstoredMonth := hfields.number .month rfl
      rw [(lastCapture?_eq_some_iff_mem hrepeats).2 hvalue] at hstoredMonth
      exact Except.ok.inj (hstoredMonth.symm.trans (hdecoded value hvalue))

/-- No month has the number zero, for which an empty text stands. -/
theorem Month.number?_ne_zero {name : Text} {number : Nat} (h : number? name = some number) :
    number ≠ 0 := by
  obtain ⟨index, -, rfl⟩ := Option.map_eq_some_iff.1 h
  exact Nat.succ_ne_zero index

/-- An empty capture agrees with captures that agree if those of its placeholder are empty as well
and, where it is a month, if no month is named. -/
theorem capturesAgree_concat_nil {captures : List Capture} (h : CapturesAgree captures)
    (last : Placeholder) :
    CapturesAgree (captures ++ [(last, [])]) ↔
      (∀ value, (last, value) ∈ captures → value = []) ∧
        (last = .month → ∀ name, (.monthName, name) ∈ captures → name = []) := by
  constructor
  · rintro ⟨hrepeats, hmonth⟩
    refine ⟨fun value hvalue => hrepeats last value [] (by simp [hvalue]) (by simp), ?_⟩
    rintro rfl name hname
    by_contra hne
    obtain ⟨number, hnumber, hdecoded⟩ := hmonth name (by simp [hname]) hne
    have hzero : (0 : Int) = number := Except.ok.inj (hdecoded [] (by simp))
    exact Month.number?_ne_zero hnumber (by omega)
  · rintro ⟨hempty, hmonth⟩
    have hmem : ∀ {placeholder value}, (placeholder, value) ∈ captures ++ [(last, [])] →
        (placeholder, value) ∈ captures ∨ placeholder = last ∧ value = [] := by simp
    refine ⟨fun placeholder value other hvalue hother => ?_, fun name hname hne => ?_⟩
    · obtain hold | ⟨rfl, rfl⟩ := hmem hvalue
      · obtain holdOther | ⟨rfl, rfl⟩ := hmem hother
        · exact h.repeats placeholder value other hold holdOther
        · exact hempty value hold
      · obtain holdOther | ⟨-, rfl⟩ := hmem hother
        · exact (hempty other holdOther).symm
        · rfl
    · have hold := (hmem hname).resolve_right fun hlast => hne hlast.2
      obtain ⟨number, hnumber, hdecoded⟩ := h.month name hold hne
      refine ⟨number, hnumber, fun value hvalue => ?_⟩
      obtain holdMonth | ⟨rfl, rfl⟩ := hmem hvalue
      · exact hdecoded value holdMonth
      · exact absurd (hmonth rfl name hold) hne

/-! ## Decoding an omitted field -/

/-- One more empty capture sets its field back, and leaves all other fields alone. -/
theorem decode_concat_nil {captures : List Capture} {earlier record : EventRecord}
    {last : Placeholder} (hearlier : decode .lenient captures = .ok earlier)
    (h : decode .lenient (captures ++ [(last, [])]) = .ok record) :
    record = { earlier.reset last with consistent := record.consistent } := by
  obtain ⟨stored, hstored, rfl⟩ := map_eq_ok_iff.1 hearlier
  rw [decode, EventRecord.storeAll_concat hstored, EventRecord.store_nil] at h
  obtain rfl := Except.ok.inj h
  cases last <;> rfl

/-- A field that was captured as the empty text only is not changed by one more. -/
theorem decode_reset_of_empty {captures : List Capture} {record : EventRecord}
    {placeholder : Placeholder} (h : decode .lenient captures = .ok record)
    (hempty : ∀ value, (placeholder, value) ∈ captures → value = []) :
    record.reset placeholder = record := by
  obtain ⟨stored, hstored, rfl⟩ := map_eq_ok_iff.1 h
  rw [EventRecord.reset_consistent, EventRecord.reset_of_empty hstored hempty]

namespace Pattern

/-- A location that stops inside the literal in front of the last placeholder gives a record of what
was captured up to there, but with the default in the field of that placeholder. It is consistent
exactly if it is the record of these captures. If they agree, and the placeholder is not a month
behind the name of one, this is so exactly if the placeholder stands for no text further in front:
the last one of repeated captures stays, and here that is the empty one. -/
theorem read_omitted_field {source : Text} {pattern : Pattern}
    (hcompile : compile source = .ok pattern) {location : Text} {captures : List Capture}
    {last : Placeholder} (hcut : CutReading pattern.tokens location (captures ++ [(last, [])]))
    (hagree : CapturesAgree captures) :
    ∃ earlier record, decode .lenient captures = .ok earlier ∧ earlier.consistent = true ∧
      readLocation source location = .ok record ∧
      record = { earlier.reset last with consistent := record.consistent } ∧
      (record.consistent = true ↔ record = earlier) ∧
      ((last = .month → ∀ name, (.monthName, name) ∈ captures → name = []) →
        (record.consistent = true ↔ ∀ value, (last, value) ∈ captures → value = [])) := by
  obtain ⟨-, -, hapart, -⟩ := compile_eq_ok hcompile
  have hcapture := hcut.capture_eq_ok hapart
  obtain ⟨earlier, hearlier⟩ := decode_lenient captures
  obtain ⟨record, hrecord⟩ := decode_lenient (captures ++ [(last, [])])
  have hread : readLocation source location = .ok record := by
    rw [readLocation_of_compile hcompile, Pattern.read, hcapture]
    simp only [hrecord]
    rfl
  have hagreed : earlier.consistent = true := (consistent_iff_capturesAgree hearlier).2 hagree
  have hfields := decode_concat_nil hearlier hrecord
  have hconsistent := consistent_iff_capturesAgree hrecord
  rw [capturesAgree_concat_nil hagree] at hconsistent
  refine ⟨earlier, record, hearlier, hagreed, hread, hfields, ⟨fun h => ?_, ?_⟩, fun hmonth => ?_⟩
  · rw [hfields, decode_reset_of_empty hearlier (hconsistent.1 h).1, h, ← hagreed]
  · rintro rfl
    exact hagreed
  · exact hconsistent.trans (and_iff_left hmonth)

/-- A venue that is left out twice does no harm. -/
theorem read_omitted_field_of_venue :
    let pattern : Pattern := ⟨"%V/%y - %V".toList,
      [.field .venue, .literal "/".toList, .field .year, .literal " - ".toList, .field .venue]⟩
    let captures : List Capture := [(.venue, []), (.year, "2024".toList)]
    compile pattern.source = .ok pattern ∧
      CutReading pattern.tokens "/2024 -".toList (captures ++ [(.venue, [])]) ∧
      CapturesAgree captures ∧
      readLocation pattern.source "/2024 -".toList = .ok { year := 2024 } := by
  intro pattern captures
  have hcompile : compile pattern.source = .ok pattern := by decide +kernel
  have hdecode : decode .lenient captures = .ok { year := 2024 } := by decide +kernel
  have hagree : CapturesAgree captures := (consistent_iff_capturesAgree hdecode).1 rfl
  have hlongest : Text.LongestCut " - ".toList ("2024".toList ++ " -".toList) " -".toList :=
    .of_length (by decide) (by decide) (by decide)
  have hcut : CutReading pattern.tokens "/2024 -".toList (captures ++ [(.venue, [])]) :=
    .cons_field (by decide) (by decide)
      (CutReading.cons_literal (cutReading_of_longestCut (by decide) hlongest))
  obtain ⟨earlier, record, hearlier, -, hread, -, hsame, hconsistent⟩ :=
    read_omitted_field hcompile hcut hagree
  obtain rfl := Except.ok.inj (hdecode.symm.trans hearlier)
  obtain rfl := hsame.1 ((hconsistent (by simp)).2 (by simp [captures]))
  exact ⟨hcompile, hcut, hagree, hread⟩

/-- A year that is written and then left out is lost, and the record is inconsistent. -/
theorem readLocation_of_repeated_year :
    let pattern : Pattern := ⟨"%y/%V - %y".toList,
      [.field .year, .literal "/".toList, .field .venue, .literal " - ".toList, .field .year]⟩
    let captures : List Capture := [(.year, "2024".toList), (.venue, "Hall".toList)]
    compile pattern.source = .ok pattern ∧
      CutReading pattern.tokens "2024/Hall -".toList (captures ++ [(.year, [])]) ∧
      CapturesAgree captures ∧
      readLocation pattern.source "2024/Hall -".toList =
        .ok { year := 0, venue := "Hall".toList, consistent := false } := by
  intro pattern captures
  have hdecode : decode .lenient captures = .ok { year := 2024, venue := "Hall".toList } := by
    decide +kernel
  have hlongest : Text.LongestCut " - ".toList ("Hall".toList ++ " -".toList) " -".toList :=
    .of_length (by decide) (by decide) (by decide)
  have hcut : CutReading pattern.tokens "2024/Hall -".toList (captures ++ [(.year, [])]) :=
    .cons_field (by decide) (by decide)
      (CutReading.cons_literal (cutReading_of_longestCut (by decide) hlongest))
  exact ⟨by decide +kernel, hcut, (consistent_iff_capturesAgree hdecode).1 rfl, by decide +kernel⟩

end Pattern

end EventFinder
