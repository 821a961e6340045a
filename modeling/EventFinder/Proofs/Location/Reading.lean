import EventFinder.Proofs.Location.Filling

/-!
# The readings of a location

What the matcher accepts, said without the matcher. A location is read in full (`FullReading`) if
it is the text of a filled pattern that keeps its boundaries. It is read with a cut (`CutReading`)
if it stops inside the last literal of a pattern that has one more placeholder behind it: that
placeholder is then empty, and the one in front of the literal ends right before the longest cut.

`capture_eq_ok_iff_reading` states that, for a compiled pattern, the captures of a location are
those of its readings and no others.
-/

set_option autoImplicit false

namespace EventFinder

/-- The location is the pattern with the captured texts in it, and every boundary is kept. -/
def FullReading (tokens : List Token) (location : Text) (captures : List Capture) : Prop :=
  ∃ filled : List FilledToken,
    filled.map FilledToken.token = tokens ∧ filled.filterMap FilledToken.capture? = captures ∧
      location = filledText filled ∧ KeepsBoundaries filled []

/-- The location stops inside the literal in front of the last placeholder, which is empty. The
boundaries before that literal are kept; a placeholder that it directly follows ends before the
longest beginning of the literal, which does not occur in full. -/
def CutReading (tokens : List Token) (location : Text) (captures : List Capture) : Prop :=
  ∃ (filled : List FilledToken) (literal : Text) (last : Placeholder) (cut : Text),
    tokens = filled.map FilledToken.token ++ [.literal literal, .field last] ∧
      captures = filled.filterMap FilledToken.capture? ++ [(last, [])] ∧
      location = filledText filled ++ cut ∧ Text.ProperPrefix cut literal ∧
      KeepsBoundaries filled cut ∧
      ∀ before p value, filled = before ++ [.field p value] →
        ¬ literal <:+: value ++ cut ∧ Text.LongestCut literal (value ++ cut) cut

/-! ## Readings with one more token in front -/

/-- A literal in front of the location is read as the literal of the pattern. -/
theorem FullReading.cons_literal {literal location : Text} {tokens : List Token}
    {captures : List Capture} (h : FullReading tokens location captures) :
    FullReading (.literal literal :: tokens) (literal ++ location) captures := by
  obtain ⟨filled, rfl, rfl, rfl, hkeeps⟩ := h
  exact ⟨.literal literal :: filled, rfl, by simp [List.filterMap_cons], rfl,
    keepsBoundaries_cons_literal.2 hkeeps⟩

/-- A literal in front of a location that is cut off changes nothing about the cut. -/
theorem CutReading.cons_literal {literal location : Text} {tokens : List Token}
    {captures : List Capture} (h : CutReading tokens location captures) :
    CutReading (.literal literal :: tokens) (literal ++ location) captures := by
  obtain ⟨filled, other, last, cut, rfl, rfl, rfl, hproper, hkeeps, hbefore⟩ := h
  refine ⟨.literal literal :: filled, other, last, cut, rfl, by simp [List.filterMap_cons],
    by simp, hproper, keepsBoundaries_cons_literal.2 hkeeps, ?_⟩
  rintro (_ | ⟨first, before⟩) p value heq
  · simp at heq
  · simp only [List.cons_append, List.cons.injEq] at heq
    exact hbefore before p value heq.2

/-- A value in front of its boundary is read as the capture of the placeholder. -/
theorem FullReading.cons_field {p : Placeholder} {literal value rest : Text} {tokens : List Token}
    {captures : List Capture} (hrule : Text.BoundaryRule p.isGreedy literal value rest)
    (h : FullReading (.literal literal :: tokens) rest captures) :
    FullReading (.field p :: .literal literal :: tokens) (value ++ rest)
      ((p, value) :: captures) := by
  obtain ⟨filled, htokens, rfl, rfl, hkeeps⟩ := h
  obtain _ | ⟨first, filled⟩ := filled
  · cases htokens
  · simp only [List.map_cons, List.cons.injEq, FilledToken.token_eq_literal] at htokens
    obtain ⟨rfl, rfl⟩ := htokens
    refine ⟨.field p value :: .literal literal :: filled, rfl, by simp [List.filterMap_cons], rfl,
      ?_⟩
    exact keepsBoundaries_cons_field.2 ⟨by simpa using hrule, hkeeps.tail⟩

/-- A value in front of its boundary is read as the capture of the placeholder, if the literal at
the boundary is not the one that is cut off. -/
theorem CutReading.cons_field {p : Placeholder} {literal value rest : Text} {tokens : List Token}
    {captures : List Capture} (hbegins : literal <+: rest)
    (hrule : Text.BoundaryRule p.isGreedy literal value rest)
    (h : CutReading (.literal literal :: tokens) rest captures) :
    CutReading (.field p :: .literal literal :: tokens) (value ++ rest)
      ((p, value) :: captures) := by
  obtain ⟨filled, other, last, cut, htokens, rfl, rfl, hproper, hkeeps, hbefore⟩ := h
  obtain _ | ⟨first, filled⟩ := filled
  · -- The literal of the cut cannot be the one that the boundary stands before.
    simp only [List.map_nil, List.nil_append, List.cons.injEq, Token.literal.injEq] at htokens
    obtain ⟨rfl, -⟩ := htokens
    have := hbegins.length_le
    have := hproper.length_lt
    simp only [filledText_nil, List.nil_append] at *
    omega
  · simp only [List.map_cons, List.cons_append, List.cons.injEq] at htokens
    obtain ⟨hfirst, rfl⟩ := htokens
    obtain rfl := FilledToken.token_eq_literal.1 hfirst.symm
    refine ⟨.field p value :: .literal literal :: filled, other, last, cut, rfl,
      by simp [List.filterMap_cons], by simp, hproper, ?_, ?_⟩
    · exact keepsBoundaries_cons_field.2 ⟨by simpa using hrule, hkeeps.tail⟩
    · rintro (_ | ⟨first, before⟩) q other heq
      · simp at heq
      · simp only [List.cons_append, List.cons.injEq] at heq
        exact hbefore before q other heq.2

/-! ## A literal that is missing -/

/-- Only a last placeholder makes the text behind a literal optional. -/
theorem isOptionalTail_iff {tokens : List Token} (hapart : FieldsApart tokens) :
    isOptionalTail tokens = true ↔ ∃ p, tokens = [.field p] := by
  constructor
  · intro h
    simp only [isOptionalTail, Bool.and_eq_true, Bool.not_eq_true', List.isEmpty_eq_false_iff,
      List.all_eq_true] at h
    rcases tokens with _ | ⟨first, _ | ⟨second, tokens⟩⟩
    · simp at h
    · cases first with
      | literal text => simpa [Token.isField] using h.2 (.literal text) (by simp)
      | field p => exact ⟨p, rfl⟩
    · have hfirst := h.2 first (by simp)
      have hsecond := h.2 second (by simp)
      simpa [hfirst, hsecond] using (List.isChain_cons_cons.1 hapart).1
  · rintro ⟨p, rfl⟩
    rfl

/-- A literal that the text does not start with is passed only by the optional last placeholder. -/
theorem capture_missing_literal {literal text : Text} {tail : List Token} {captures : List Capture}
    (hapart : FieldsApart tail) (hmissing : ¬ literal <+: text) :
    capture (.literal literal :: tail) text = .ok captures ↔
      ∃ p, tail = [.field p] ∧ text <+: literal ∧ captures = [(p, [])] := by
  have hafter : Text.after? literal text = none := by
    rw [Option.eq_none_iff_forall_ne_some]
    intro rest hrest
    exact hmissing ⟨rest, List.isPrefixOf?_eq_some_iff_append_eq.1 hrest⟩
  have hcondition : (isOptionalTail tail && text.isPrefixOf literal) = true ↔
      (∃ p, tail = [.field p]) ∧ text <+: literal := by
    rw [Bool.and_eq_true, List.isPrefixOf_iff_prefix, isOptionalTail_iff hapart]
  rw [capture, hafter]
  constructor
  · intro h
    dsimp only at h
    split at h
    · rename_i hcut
      obtain ⟨⟨p, rfl⟩, hbegins⟩ := hcondition.1 hcut
      cases h
      exact ⟨p, rfl, hbegins, rfl⟩
    · cases h
  · rintro ⟨p, rfl, hbegins, rfl⟩
    dsimp only
    rw [if_pos (hcondition.2 ⟨⟨p, rfl⟩, hbegins⟩)]
    rfl

/-- A placeholder in front of the last literal ends before the longest cut of it. -/
theorem cutReading_of_longestCut {p last : Placeholder} {literal value cut : Text}
    (hmissing : ¬ literal <:+: value ++ cut)
    (hlongest : Text.LongestCut literal (value ++ cut) cut) :
    CutReading [.field p, .literal literal, .field last] (value ++ cut)
      [(p, value), (last, [])] := by
  refine ⟨[.field p value], literal, last, cut, rfl, by simp, by simp, hlongest.isProper,
    keepsBoundaries_singleton_field _ _ _, ?_⟩
  intro before q other heq
  obtain ⟨rfl, hfield⟩ := List.append_inj' ((List.nil_append _).trans heq) rfl
  simp only [List.cons.injEq, FilledToken.field.injEq, and_true] at hfield
  obtain ⟨rfl, rfl⟩ := hfield
  exact ⟨hmissing, hlongest⟩

/-! ## Captures and readings -/

/-- The matcher finds readings only. -/
theorem reading_of_capture {tokens : List Token}
    (hliteral : ∀ text, Token.literal text ∈ tokens → text ≠ []) (hapart : FieldsApart tokens)
    {location : Text} {captures : List Capture} (h : capture tokens location = .ok captures) :
    FullReading tokens location captures ∨ CutReading tokens location captures := by
  -- Every step of the matcher puts one token in front of a reading of the rest.
  induction tokens generalizing location captures with
  | nil =>
    cases location with
    | nil =>
      cases h
      exact .inl ⟨[], rfl, rfl, rfl, keepsBoundaries_nil []⟩
    | cons c location => cases h
  | cons token tail ih =>
    have ih' := @ih (fun text htext => hliteral text (List.mem_cons_of_mem _ htext)) hapart.tail
    cases token with
    | literal literal =>
      by_cases hbegins : literal <+: location
      · obtain ⟨rest, rfl⟩ := hbegins
        rw [capture_literal] at h
        exact (ih' h).imp FullReading.cons_literal CutReading.cons_literal
      · obtain ⟨p, rfl, hcut, rfl⟩ := (capture_missing_literal hapart.tail hbegins).1 h
        have hproper : Text.ProperPrefix location literal :=
          ⟨hcut, by rintro rfl; exact hbegins List.prefix_rfl⟩
        exact .inr ⟨[], literal, p, location, rfl, rfl, rfl, hproper, keepsBoundaries_nil _,
          by simp⟩
    | field p =>
      obtain _ | ⟨next, tail⟩ := tail
      · cases h
        exact .inl ⟨[.field p location], rfl, rfl, by simp, keepsBoundaries_singleton_field _ _ _⟩
      cases next with
      | field q => simpa [Token.isField] using (List.isChain_cons_cons.1 hapart).1
      | literal literal =>
        have hne : literal ≠ [] := hliteral literal (by simp)
        cases hboundary : Text.boundary p.isGreedy literal location with
        | some parts =>
          obtain ⟨value, rest⟩ := parts
          rw [capture_field_of_boundary hboundary] at h
          obtain ⟨others, hothers, rfl⟩ := map_eq_ok_iff.1 h
          obtain ⟨rfl, ⟨hbegins, hrule⟩ | ⟨hmissing, hrest, hlongest⟩⟩ :=
            Text.boundary_eq_some hboundary
          · exact (ih' hothers).imp (FullReading.cons_field hrule)
              (CutReading.cons_field hbegins hrule)
          · have hstart : ¬ literal <+: rest := fun hbegins =>
              hmissing (hbegins.isInfix.trans (List.suffix_append value rest).isInfix)
            obtain ⟨q, rfl, -, rfl⟩ := (capture_missing_literal hapart.tail.tail hstart).1 hothers
            exact .inr (cutReading_of_longestCut hmissing hlongest)
        | none =>
          -- The value is all that is left, and only the optional last placeholder may follow.
          obtain ⟨hmissing, hlongest⟩ := (Text.boundary_eq_none_iff hne).1 hboundary
          have hnext : nextLiteral? (.literal literal :: tail) = some (literal, tail) := rfl
          rw [capture.eq_4, hnext] at h
          simp only [hboundary] at h
          split at h
          · obtain ⟨others, hothers, rfl⟩ := map_eq_ok_iff.1 h
            have hstart : ¬ literal <+: [] := by simpa using hne
            obtain ⟨q, rfl, -, rfl⟩ := (capture_missing_literal hapart.tail.tail hstart).1 hothers
            rw [← List.append_nil location] at hmissing hlongest ⊢
            exact .inr (by simpa using cutReading_of_longestCut hmissing hlongest)
          · cases h

/-- In front of a placeholder, a filled pattern does not end with another one. -/
theorem ne_append_field {before : List FilledToken} {p : Placeholder} {tail : List Token}
    (hapart : FieldsApart (before.map FilledToken.token ++ .field p :: tail)) :
    ∀ first q value, before ≠ first ++ [.field q value] := by
  rintro first q value rfl
  rw [List.map_append, List.append_assoc] at hapart
  have := (List.isChain_cons_cons.1 hapart.right_of_append).1
  simp [Token.isField] at this

/-- The matcher finds every full reading. -/
theorem FullReading.capture_eq_ok {tokens : List Token} (hapart : FieldsApart tokens)
    {location : Text} {captures : List Capture} (h : FullReading tokens location captures) :
    capture tokens location = .ok captures := by
  obtain ⟨filled, rfl, rfl, rfl, hkeeps⟩ := h
  obtain rfl | ⟨before, last, rfl⟩ := filled.eq_nil_or_concat'
  · rfl
  cases last with
  | literal literal =>
    have hend : ∀ first p value, before ++ [.literal literal] ≠ first ++ [.field p value] := by
      intro first p value heq
      simpa using (List.append_inj' heq rfl).2
    have hnone : capture [] [] = .ok [] := rfl
    simpa using capture_append hapart hend hkeeps hnone
  | field p value =>
    have hbefore : KeepsBoundaries before value := by simpa using hkeeps.of_append
    rw [List.map_append] at hapart
    have := capture_append hapart.left_of_append (ne_append_field hapart) hbefore
      (capture_last p value)
    simpa [List.filterMap_cons] using this

/-- The matcher finds the longest cut behind a placeholder. -/
theorem capture_longestCut {p last : Placeholder} {literal value cut : Text}
    (hmissing : ¬ literal <:+: value ++ cut)
    (hlongest : Text.LongestCut literal (value ++ cut) cut) :
    capture [.field p, .literal literal, .field last] (value ++ cut) =
      .ok [(p, value), (last, [])] := by
  have hne : literal ≠ [] := by
    rintro rfl
    simpa using hlongest.isProper.length_lt
  have hstart : ¬ literal <+: cut := fun hbegins =>
    hmissing (hbegins.isInfix.trans (List.suffix_append value cut).isInfix)
  have htail : capture [.literal literal, .field last] cut = .ok [(last, [])] :=
    (capture_missing_literal (.singleton _) hstart).2 ⟨last, rfl, hlongest.isProper.1, rfl⟩
  -- The search for a boundary reports a cut only if it is not empty.
  by_cases hcut : cut = []
  · subst hcut
    have hnone : Text.boundary p.isGreedy literal (value ++ []) = none :=
      (Text.boundary_eq_none_iff hne).2 ⟨hmissing, hlongest⟩
    have hnext : nextLiteral? [.literal literal, .field last] = some (literal, [.field last]) := rfl
    rw [capture.eq_4, hnext]
    simp only [hnone, htail]
    simp [Token.isField]
  · have hsome : Text.boundary p.isGreedy literal (value ++ cut) = some (value, cut) := by
      rw [Text.boundary_of_not_isInfix hmissing]
      exact Text.truncatedOccurrence_eq_some_iff.2 ⟨rfl, hcut, hlongest⟩
    rw [capture_field_of_boundary hsome, htail]
    rfl

/-- The matcher finds every reading with a cut. -/
theorem CutReading.capture_eq_ok {tokens : List Token} (hapart : FieldsApart tokens)
    {location : Text} {captures : List Capture} (h : CutReading tokens location captures) :
    capture tokens location = .ok captures := by
  obtain ⟨filled, literal, last, cut, rfl, rfl, rfl, hproper, hkeeps, hbefore⟩ := h
  have hstart : ¬ literal <+: cut := fun hbegins => by
    have := hbegins.length_le
    have := hproper.length_lt
    omega
  have htail : capture [.literal literal, .field last] cut = .ok [(last, [])] :=
    (capture_missing_literal (.singleton _) hstart).2 ⟨last, rfl, hproper.1, rfl⟩
  obtain rfl | ⟨before, token, rfl⟩ := filled.eq_nil_or_concat'
  · exact htail
  cases token with
  | literal other =>
    have hend : ∀ first p value, before ++ [.literal other] ≠ first ++ [.field p value] := by
      intro first p value heq
      simpa using (List.append_inj' heq rfl).2
    exact capture_append hapart.left_of_append hend hkeeps htail
  | field p value =>
    obtain ⟨hmissing, hlongest⟩ := hbefore before p value rfl
    rw [List.map_append, List.append_assoc] at hapart
    have hkeeps' : KeepsBoundaries before (value ++ cut) := by simpa using hkeeps.of_append
    have hcapture : capture [.field p, .literal literal, .field last] (value ++ cut) = _ :=
      capture_longestCut hmissing hlongest
    have := capture_append hapart.left_of_append (ne_append_field hapart) hkeeps' hcapture
    simpa [List.filterMap_cons] using this

/-- The captures of a location are those of its readings and no others. -/
theorem capture_eq_ok_iff_reading {source : Text} {pattern : Pattern}
    (h : Pattern.compile source = .ok pattern) (location : Text) (captures : List Capture) :
    capture pattern.tokens location = .ok captures ↔
      FullReading pattern.tokens location captures ∨
        CutReading pattern.tokens location captures := by
  obtain ⟨-, hnormal, hapart, -⟩ := Pattern.compile_eq_ok h
  constructor
  · exact reading_of_capture hnormal.literal_ne_nil hapart
  · rintro (hfull | hcut)
    · exact hfull.capture_eq_ok hapart
    · exact hcut.capture_eq_ok hapart

/-- A location that stops inside the literal in front of the last placeholder has a reading. -/
theorem reading_of_stopped_location :
    let pattern : Pattern := ⟨"%P (%V) %p".toList, [.field .performers, .literal " (".toList,
      .field .venue, .literal ") ".toList, .field .promoters]⟩
    let captures : List Capture :=
      [(.performers, "Band".toList), (.venue, "Hall".toList), (.promoters, [])]
    Pattern.compile pattern.source = .ok pattern ∧
      (FullReading pattern.tokens "Band (Hall)".toList captures ∨
        CutReading pattern.tokens "Band (Hall)".toList captures) := by
  intro pattern captures
  have hcompile : Pattern.compile pattern.source = .ok pattern := by decide +kernel
  have hcapture : capture pattern.tokens "Band (Hall)".toList = .ok captures := by decide +kernel
  exact ⟨hcompile, (capture_eq_ok_iff_reading hcompile _ _).1 hcapture⟩

end EventFinder
