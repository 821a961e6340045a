import EventFinder.Batch

/-!
# Tallies

The tally of a batch counts its outcomes (`Batch.ofOutcomes_eq`), and the outcomes are those of the
candidates on their own. So a batch may be read in parts, in another order or with other candidates
in some places, and all that changes is what the changed places say (`Pattern.readAll_tallies`).
-/

set_option autoImplicit false

namespace EventFinder

/-! ## Lists in another order -/

/-- The elements of a list that stand at the given places, in the order of the places. -/
def inOrder {α : Type} (order : List Nat) (xs : List α) : List α :=
  order.filterMap (xs[·]?)

/-- Elements are changed in any order alike. -/
theorem inOrder_map {α β : Type} (order : List Nat) (f : α → β) (xs : List α) :
    inOrder order (xs.map f) = (inOrder order xs).map f := by
  simp only [inOrder, List.getElem?_map, List.map_filterMap]

/-- In the order of its places a list is itself. -/
theorem inOrder_range {α : Type} (xs : List α) : inOrder (List.range xs.length) xs = xs := by
  induction xs with
  | nil => rfl
  | cons x xs ih =>
    rw [List.length_cons, List.range_succ_eq_map, inOrder, List.filterMap_cons, List.filterMap_map]
    exact congrArg (x :: ·) ih

/-- Another order of the places is another order of the elements. -/
theorem inOrder_perm {α : Type} {order : List Nat} {xs : List α}
    (h : order.Perm (List.range xs.length)) : (inOrder order xs).Perm xs := by
  have hperm := h.filterMap (xs[·]?)
  rwa [← inOrder, ← inOrder, inOrder_range] at hperm

/-! ## Outcomes and their tally -/

namespace Outcome

/-- An outcome has an error exactly if it is no success. -/
theorem isSome_error? (outcome : Outcome) : outcome.error?.isSome = !outcome.isSuccess := by
  cases h : outcome.result <;> simp [error?, isSuccess, record?, h, Except.toOption]

/-- Only a record can contradict itself, so what is inconsistent was read. -/
theorem isSuccess_of_isInconsistent {outcome : Outcome} (h : outcome.isInconsistent = true) :
    outcome.isSuccess = true := by
  obtain ⟨record, hrecord, -⟩ := (Option.any_eq_true _ _).1 h
  rw [isSuccess, hrecord, Option.isSome_some]

end Outcome

namespace Batch

/-- Outcomes that are added one after the other are counted on from what was there. -/
theorem foldl_add (batch : Batch) (outcomes : List Outcome) :
    outcomes.foldl add batch =
      ⟨batch.total + outcomes.length, batch.successful + outcomes.countP Outcome.isSuccess,
        batch.inconsistent + outcomes.countP Outcome.isInconsistent,
        batch.failed + outcomes.countP fun outcome => !outcome.isSuccess,
        batch.outcomes ++ outcomes⟩ := by
  induction outcomes generalizing batch with
  | nil => simp
  | cons outcome outcomes ih =>
    rw [List.foldl_cons, ih]
    cases hsuccess : outcome.isSuccess <;> cases hinconsistent : outcome.isInconsistent <;>
      simp [add, hsuccess, hinconsistent, Nat.add_assoc, Nat.add_comm 1]

/-- The tally of a batch counts its outcomes, which stand as they were read. -/
theorem ofOutcomes_eq (outcomes : List Outcome) :
    ofOutcomes outcomes =
      ⟨outcomes.length, outcomes.countP Outcome.isSuccess,
        outcomes.countP Outcome.isInconsistent,
        outcomes.countP fun outcome => !outcome.isSuccess, outcomes⟩ := by
  simp [ofOutcomes, foldl_add]

/-- Consistent successes are counted as nothing else. -/
theorem ofOutcomes_of_consistent {outcomes : List Outcome}
    (h : ∀ outcome ∈ outcomes, outcome.isSuccess = true ∧ outcome.isInconsistent = false) :
    ofOutcomes outcomes = ⟨outcomes.length, outcomes.length, 0, 0, outcomes⟩ := by
  have hsuccessful : outcomes.countP Outcome.isSuccess = outcomes.length :=
    List.countP_eq_length.2 fun outcome hmem => (h outcome hmem).1
  have hinconsistent : outcomes.countP Outcome.isInconsistent = 0 :=
    List.countP_eq_zero.2 fun outcome hmem => by simp [(h outcome hmem).2]
  have hfailed : (outcomes.countP fun outcome => !outcome.isSuccess) = 0 :=
    List.countP_eq_zero.2 fun outcome hmem => by simp [(h outcome hmem).1]
  rw [ofOutcomes_eq, hsuccessful, hinconsistent, hfailed]

/-- Two batches, one after the other. -/
def append (first second : Batch) : Batch where
  total := first.total + second.total
  successful := first.successful + second.successful
  inconsistent := first.inconsistent + second.inconsistent
  failed := first.failed + second.failed
  outcomes := first.outcomes ++ second.outcomes

/-- Outcomes that stand one after the other are tallied as their two batches together. -/
theorem ofOutcomes_append (first second : List Outcome) :
    ofOutcomes (first ++ second) = (ofOutcomes first).append (ofOutcomes second) := by
  simp [ofOutcomes_eq, append]

/-- The order of the outcomes does not matter for the tally. -/
theorem ofOutcomes_of_perm {outcomes reordered : List Outcome} (h : reordered.Perm outcomes) :
    ofOutcomes reordered = { ofOutcomes outcomes with outcomes := reordered } := by
  simp [ofOutcomes_eq, h.length_eq, h.countP_eq]

/-- The counters of a batch agree with each other and with the parts of its outcomes: the records
and the failures. -/
structure IsTallied (batch : Batch) : Prop where
  total_eq_length : batch.total = batch.outcomes.length
  total_eq_add : batch.total = batch.successful + batch.failed
  successful_eq_length : batch.successful = batch.records.length
  failed_eq_length : batch.failed = batch.failures.length
  inconsistent_eq_count :
    batch.inconsistent = batch.records.countP fun record => !record.consistent
  inconsistent_le : batch.inconsistent ≤ batch.successful

/-- The counters of every list of outcomes agree. Each law compares two ways to count the same
elements. -/
theorem isTallied_ofOutcomes (outcomes : List Outcome) : (ofOutcomes outcomes).IsTallied := by
  rw [ofOutcomes_eq]
  constructor
  case total_eq_length => rfl
  case total_eq_add =>
    show outcomes.length = outcomes.countP _ + outcomes.countP _
    rw [List.length_eq_countP_add_countP Outcome.isSuccess]
    simp
  case successful_eq_length =>
    show outcomes.countP _ = (outcomes.filterMap _).length
    rw [List.length_filterMap_eq_countP]
    rfl
  case failed_eq_length =>
    show outcomes.countP _ = (outcomes.filterMap _).length
    rw [List.length_filterMap_eq_countP]
    simp [Outcome.isSome_error?]
  case inconsistent_eq_count =>
    show outcomes.countP _ = (outcomes.filterMap _).countP _
    rw [List.countP_filterMap]
    congr 1
    funext outcome
    cases h : outcome.record? <;> simp [Outcome.isInconsistent, h]
  case inconsistent_le =>
    exact List.countP_mono_left fun outcome _ => Outcome.isSuccess_of_isInconsistent

end Batch

/-- A batch has one outcome for each candidate, in their order, which is what reading the location
of this candidate alone gives. Its counters count these outcomes. Candidates that are read together
with others are counted together with them; candidates in another order have their outcomes in that
order and the same tally; and with another candidate in one place the outcomes in all other places
are the same, whether any of them failed or not. -/
theorem Pattern.readAll_tallies (pattern : Pattern) (mode : NumberMode) (candidates : List Path) :
    (pattern.readAll mode candidates).outcomes =
        candidates.map (fun path => ⟨path, path.location, pattern.read mode path.location⟩) ∧
      (pattern.readAll mode candidates).IsTallied ∧
      (∀ others, pattern.readAll mode (candidates ++ others) =
        (pattern.readAll mode candidates).append (pattern.readAll mode others)) ∧
      (∀ order, order.Perm (List.range candidates.length) →
        pattern.readAll mode (inOrder order candidates) =
          { pattern.readAll mode candidates with
            outcomes := inOrder order (pattern.readAll mode candidates).outcomes }) ∧
      ∀ place path, (pattern.readAll mode (candidates.set place path)).outcomes =
        (pattern.readAll mode candidates).outcomes.set place
          ⟨path, path.location, pattern.read mode path.location⟩ := by
  have houtcomes : ∀ candidates, (pattern.readAll mode candidates).outcomes =
      candidates.map (pattern.readCandidate mode) := by
    intro candidates
    rw [readAll, Batch.ofOutcomes_eq]
  refine ⟨houtcomes candidates, Batch.isTallied_ofOutcomes _, fun others => ?_,
    fun order horder => ?_, fun place path => ?_⟩
  · simp only [readAll, List.map_append, Batch.ofOutcomes_append]
  · rw [houtcomes, inOrder_map, readAll]
    exact Batch.ofOutcomes_of_perm ((inOrder_perm horder).map _)
  · rw [houtcomes, houtcomes, List.map_set]
    rfl

/-- Three candidates in another order: a month that its name contradicts, one that fits, and one
that is no month. -/
theorem Pattern.readAll_tallies_of_three_candidates :
    let pattern : Pattern := ⟨"%M (%m)".toList,
      [.field .monthName, .literal " (".toList, .field .month, .literal [')']]⟩
    let candidates : List Path :=
      ["March (03)".toList, "misc".toList, "March (04)".toList].map Text.toBytes
    let reordered := pattern.readAll .strict (inOrder [2, 0, 1] candidates)
    [2, 0, 1].Perm (List.range candidates.length) ∧
      reordered.outcomes.map Outcome.location =
        ["March (04)".toList, "March (03)".toList, "misc".toList] ∧
      (reordered.total, reordered.successful, reordered.inconsistent, reordered.failed) =
        (3, 2, 1, 1) := by
  intro pattern candidates reordered
  have horder : [2, 0, 1].Perm (List.range candidates.length) := by decide
  obtain ⟨-, -, -, hreordered, -⟩ := readAll_tallies pattern .strict candidates
  simp only [reordered, hreordered [2, 0, 1] horder]
  exact ⟨horder, by decide +kernel, by decide +kernel⟩

end EventFinder
