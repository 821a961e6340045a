import EventFinder.Proofs.Json.RoundTrip
import EventFinder.Proofs.Report

/-!
# What a JSON report says

A program that reads the JSON report of a batch gets an object with the outcomes in their order and
the tally (`Batch.IsShownAs`). Which members an object has is said without their order, in which
readers take no interest (`Json.HasMembers`). The text is read back to the value that was written,
so the two layouts say the same (`Batch.json_reads_back`).
-/

set_option autoImplicit false

namespace EventFinder

/-- The value is an object with the given members and no others, each name once. -/
def Json.HasMembers (json : Json) (members : List (Text × Json)) : Prop :=
  ∃ written, json = .object written ∧ (written.map Prod.fst).Nodup ∧
    ∀ member, member ∈ written ↔ member ∈ members

/-- The value is an object with the eight fields of the record. -/
def EventRecord.IsShownAs (record : EventRecord) (json : Json) : Prop :=
  json.HasMembers [
    ("year".toList, .number record.year),
    ("month".toList, .number record.month),
    ("day".toList, .number record.day),
    ("month_name".toList, .string record.monthName),
    ("performers".toList, .array (record.performers.map .string)),
    ("venue".toList, .string record.venue),
    ("promoters".toList, .array (record.promoters.map .string)),
    ("consistent".toList, .bool record.consistent)]

/-- The value is an object with the path of the outcome, its location, and either its record or its
error in words. -/
def Outcome.IsShownAs (outcome : Outcome) (json : Json) : Prop :=
  ∃ record error : Json,
    json.HasMembers [
      ("path".toList, .string (Path.shown outcome.path)),
      ("location".toList, .string outcome.location),
      ("record".toList, record),
      ("error".toList, error)] ∧
    match outcome.result with
    | .ok found => found.IsShownAs record ∧ error = .null
    | .error e => record = .null ∧ error = .string e.message

/-- The value is an object with the outcomes of the batch, in their order, and its tally. -/
def Batch.IsShownAs (batch : Batch) (json : Json) : Prop :=
  ∃ (outcomes : List Json) (summary : Json),
    json.HasMembers [("outcomes".toList, .array outcomes), ("summary".toList, summary)] ∧
      List.Forall₂ Outcome.IsShownAs batch.outcomes outcomes ∧
      summary.HasMembers [
        ("total".toList, .number batch.total),
        ("successful".toList, .number batch.successful),
        ("inconsistent".toList, .number batch.inconsistent),
        ("failed".toList, .number batch.failed)]

/-- A record is shown as its own value says. -/
theorem EventRecord.isShownAs_json (record : EventRecord) : record.IsShownAs record.json := by
  refine ⟨_, rfl, by simp, fun member => ?_⟩
  simp only [List.mem_cons, List.not_mem_nil]
  grind

/-- An outcome is shown as its own value says, whether it was read or not. -/
theorem Outcome.isShownAs_json (outcome : Outcome) : outcome.IsShownAs outcome.json := by
  refine ⟨.ofOption EventRecord.json outcome.record?,
    .ofOption (fun e => .string e.message) outcome.error?, ⟨_, rfl, by simp, fun member => ?_⟩, ?_⟩
  · simp only [List.mem_cons, List.not_mem_nil]
    grind
  · cases hresult : outcome.result with
    | ok record =>
      simp only [record?, error?, hresult]
      exact ⟨record.isShownAs_json, rfl⟩
    | error e =>
      simp only [record?, error?, hresult]
      exact ⟨rfl, rfl⟩

/-- A batch is shown as its own value says: its outcomes in order and its counters. -/
theorem Batch.isShownAs_json (batch : Batch) : batch.IsShownAs batch.json := by
  refine ⟨_, _, ⟨_, rfl, by simp, fun member => Iff.rfl⟩, ?_, ⟨_, rfl, by simp, fun member => ?_⟩⟩
  · rw [List.forall₂_map_right_iff, List.forall₂_same]
    exact fun outcome _ => outcome.isShownAs_json
  · simp only [List.mem_cons, List.not_mem_nil]
    grind

/-- The JSON report of every batch can be written and is read back, in both layouts, as one value
that shows the batch. -/
theorem Batch.json_reads_back (batch : Batch) :
    ∃ value, (∀ layout, ∃ text, batch.write (.json layout) = .ok text ∧
      Json.read? text = some value) ∧ batch.IsShownAs value := by
  refine ⟨batch.json, fun layout => ?_, batch.isShownAs_json⟩
  exact ⟨batch.json.text layout, batch.write_eq (.json layout), Json.read?_text layout batch.json⟩

end EventFinder
