import EventFinder.Location.Record
import EventFinder.Tree.Path

/-!
# Batches

A batch is what reading many candidates by one pattern gives: an outcome for each, in the order of
the candidates, and a tally. Every candidate is read on its own; one that does not fit the pattern
is counted as failed and changes nothing for the others.
-/

set_option autoImplicit false

namespace EventFinder

/-- What reading one candidate gave. -/
structure Outcome where
  /-- The candidate as it was found. -/
  path : Path
  /-- The text that was read. -/
  location : Text
  /-- The record, or why there is none. -/
  result : Except MatchError EventRecord

namespace Outcome

/-- The record, if there is one. -/
def record? (outcome : Outcome) : Option EventRecord :=
  outcome.result.toOption

/-- The error, if there is one. -/
def error? (outcome : Outcome) : Option MatchError :=
  match outcome.result with
  | .ok _ => none
  | .error e => some e

/-- Whether the candidate fits the pattern. -/
def isSuccess (outcome : Outcome) : Bool :=
  outcome.record?.isSome

/-- Whether the candidate fits the pattern with parts that contradict each other. -/
def isInconsistent (outcome : Outcome) : Bool :=
  outcome.record?.any fun record => !record.consistent

end Outcome

/-- The outcomes of many candidates with their tally. -/
structure Batch where
  total : Nat := 0
  /-- The candidates that fit the pattern, consistent or not. -/
  successful : Nat := 0
  /-- The candidates that fit the pattern with parts that contradict each other. -/
  inconsistent : Nat := 0
  /-- The candidates that do not fit the pattern. -/
  failed : Nat := 0
  outcomes : List Outcome := []

namespace Batch

/-- The batch with one more outcome at its end. -/
def add (batch : Batch) (outcome : Outcome) : Batch where
  total := batch.total + 1
  successful := batch.successful + if outcome.isSuccess then 1 else 0
  inconsistent := batch.inconsistent + if outcome.isInconsistent then 1 else 0
  failed := batch.failed + if outcome.isSuccess then 0 else 1
  outcomes := batch.outcomes ++ [outcome]

/-- The batch of outcomes, in their order. -/
def ofOutcomes (outcomes : List Outcome) : Batch :=
  outcomes.foldl add {}

/-- The records of the batch. -/
def records (batch : Batch) : List EventRecord :=
  batch.outcomes.filterMap Outcome.record?

/-- The outcomes without a record, with their errors. -/
def failures (batch : Batch) : List (Outcome × MatchError) :=
  batch.outcomes.filterMap fun outcome => outcome.error?.map fun e => (outcome, e)

end Batch

/-- What reading one candidate by a pattern gives. -/
def Pattern.readCandidate (pattern : Pattern) (mode : NumberMode) (path : Path) : Outcome :=
  { path, location := path.location, result := pattern.read mode path.location }

/-- What reading candidates by a pattern gives. -/
def Pattern.readAll (pattern : Pattern) (mode : NumberMode) (candidates : List Path) : Batch :=
  .ofOutcomes (candidates.map (pattern.readCandidate mode))

end EventFinder
